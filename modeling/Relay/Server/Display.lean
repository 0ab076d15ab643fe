import Relay.Library.History
import Relay.Server.Moves

/-!
# Relay.Server.Display

**The transient power display** (`ServerRuntime.transient` of `relay/servers.py`). A power action
sets it; it is cleared when the action is refused, and otherwise as a side effect of a change of
the coarse state. `_power_sync_tick` reads it to tell the changes that the proxy has made from those
of others.

`Watch` is a server with the history of its power actions and polls. An action that is issued while
the server already shows its target is confirmed without a change of the coarse state: that is how
the display stays on (`clears_iff`).
-/

namespace Relay

open Runs

namespace CallPhase

/-- The target of the power action that a call has issued. -/
def target? : CallPhase → Option PowerState
  | .poweringOn _ _ => some .on
  | .poweringOff _ _ _ => some .off
  | _ => none

/-- The power event that a call goes on to log. -/
def logged? (phase : CallPhase) : Option PowerEvent :=
  phase.pendingWrites.findSome? (fun
    | .logPowerEvent event => some event
    | .setServerRuntime _ => none)

end CallPhase

namespace ServerRuntime

variable {S S' : ServerRuntime} {active : Bool} {op : Op}

/-! ### What the steps of a server do to the display -/

/-- The display changes only with the coarse state, which clears it. -/
def Shown (S S' : ServerRuntime) : Prop :=
  (S'.powerState = S.powerState ∧ S'.transient = S.transient) ∨
    (S'.powerState ≠ S.powerState ∧ S'.transient = none)

/-- A power action has been issued. -/
def Issued (S S' : ServerRuntime) : Prop :=
  S'.powerState = S.powerState ∧ S'.transient.isSome = true

theorem setState_shown (S : ServerRuntime) (state : PowerState) : S.Shown (S.setState state) := by
  unfold setState
  split
  · exact Or.inl ⟨rfl, rfl⟩
  · rename_i hne
    exact Or.inr ⟨hne, rfl⟩

theorem HoldsBack.shown {result : Step} (h : S.HoldsBack result) :
    S.Shown result.1 ∧ result.2.target? = none := by
  refine ⟨Or.inl ⟨h.powerState, h.transient⟩, ?_⟩
  rcases h.phase with hphase | ⟨tick, hphase⟩
  · rw [hphase]
    rfl
  · rw [hphase]
    rfl

/-- A call that starts issues a power action, or changes the display with the coarse state. -/
theorem start_shown (S : ServerRuntime) (call : Call) (active : Bool) (now : Time) :
    (S.Shown (S.start call active now).1 ∧ (S.start call active now).2.target? = none) ∨
    (S.Issued (S.start call active now).1 ∧
      (S.start call active now).2.target?.isSome = true) := by
  have hkept : S.Shown S := Or.inl ⟨rfl, rfl⟩
  cases call with
  | maybePowerOn =>
      simp only [start, maybePowerOn]
      split
      · exact Or.inl ⟨hkept, rfl⟩
      · exact Or.inr ⟨⟨rfl, rfl⟩, rfl⟩
  | powerOn => exact Or.inr ⟨⟨rfl, rfl⟩, rfl⟩
  | powerOff => exact Or.inr ⟨⟨rfl, rfl⟩, rfl⟩
  | onRoutedTraffic =>
      simp only [start, onRoutedTraffic]
      split <;> exact Or.inl ⟨Or.inl ⟨rfl, rfl⟩, rfl⟩
  | noteServiceReady =>
      simp only [start, noteServiceReady]
      split
      · exact Or.inl ⟨hkept, rfl⟩
      · exact Or.inl ⟨setState_shown S .on, rfl⟩
  | setShutdownOverride enabled => exact Or.inl ⟨Or.inl ⟨rfl, rfl⟩, rfl⟩
  | powerSyncTick => exact Or.inl ⟨hkept, rfl⟩
  | syncState => exact Or.inl ⟨hkept, rfl⟩
  | scheduleOffTick wall => exact Or.inl (scheduleOffTick_holdsBack S active wall).shown
  | idleOffTick => exact Or.inl (idleOffTick_holdsBack S active now).shown

/-- The backend has answered a power action: only a refusal clears the display. -/
theorem run_powering (S : ServerRuntime) {phase : CallPhase} (active : Bool) (outcome : Outcome)
    (hphase : phase.target?.isSome = true) (hraised : outcome.raised = false) :
    (S.run phase active outcome).1.powerState = S.powerState ∧
    (S.run phase active outcome).1.transient =
      (if outcome.accepted then S.transient else none) ∧
    (S.run phase active outcome).2.target? = none := by
  unfold run
  rw [hraised]
  cases phase with
  | poweringOn reason initiatedBy =>
      simp only [poweredOn, Bool.false_eq_true, if_false]
      split <;> exact ⟨rfl, rfl, rfl⟩
  | poweringOff reason initiatedBy tick =>
      simp only [poweredOff, Bool.false_eq_true, if_false]
      split <;> exact ⟨rfl, rfl, rfl⟩
  | _ => cases hphase

/-- Any other call that goes on is like one that starts. -/
theorem run_shown (S : ServerRuntime) {phase : CallPhase} (active : Bool) (outcome : Outcome)
    (hphase : phase.target? = none) :
    (S.Shown (S.run phase active outcome).1 ∧ (S.run phase active outcome).2.target? = none) ∨
    (S.Issued (S.run phase active outcome).1 ∧
      (S.run phase active outcome).2.target?.isSome = true) := by
  have hkept : S.Shown S := Or.inl ⟨rfl, rfl⟩
  unfold run
  split
  · exact Or.inl ⟨hkept, rfl⟩
  · cases phase with
    | poweringOn reason initiatedBy => cases hphase
    | poweringOff reason initiatedBy tick => cases hphase
    | polling =>
        simp only [polled]
        split
        · exact Or.inl ⟨hkept, rfl⟩
        · exact Or.inl ⟨setState_shown S _, rfl⟩
    | startupPolling => exact Or.inl ⟨setState_shown S _, rfl⟩
    | verifying tick =>
        simp only
        rcases verified_cases S active outcome.now tick outcome.state with hoff | hheld
        · rw [hoff]
          exact Or.inr ⟨⟨rfl, rfl⟩, rfl⟩
        · exact Or.inl hheld.shown
    | storing call rest committed tick =>
        cases rest with
        | nil => exact Or.inl (finishTick_holdsBack S tick).shown
        | cons next rest => exact Or.inl ⟨hkept, rfl⟩
    | ended => exact Or.inl ⟨hkept, rfl⟩

theorem run_polling (S : ServerRuntime) (active : Bool) (outcome : Outcome)
    (hraised : outcome.raised = false) :
    S.Shown (S.run .polling active outcome).1 ∧
    (S.run .polling active outcome).1.powerState = outcome.state ∧
    ∀ event, (S.run .polling active outcome).2.logged? = some event → S.transient = none →
      event = ⟨.externalChange, .poll, .external, true⟩ := by
  unfold run
  rw [hraised]
  simp only [polled, Bool.false_eq_true, if_false]
  split
  · rename_i hsame
    exact ⟨Or.inl ⟨rfl, rfl⟩, hsame.symm, fun event hevent =>
      absurd hevent (by simp [CallPhase.logged?, CallPhase.pendingWrites])⟩
  · rename_i hne
    refine ⟨setState_shown S _, ?_, fun event hevent hnone => ?_⟩
    · show (S.setState outcome.state).powerState = outcome.state
      rw [setState, if_neg hne]
    · rw [hnone] at hevent
      exact (Option.some.inj hevent).symm

/-- A step leaves what the display consists of, and the calls, as the call that runs in it does. -/
structure Leaves (S' : ServerRuntime) (calls : List CallPhase) (result : Step) : Prop where
  powerState : S'.powerState = result.1.powerState
  transient : S'.transient = result.1.transient
  calls : S'.calls = calls

theorem leaves_call {call : Call} {now : Time} (h : S.step active (.call call now) = some S') :
    S'.Leaves (S.calls ++ [(start { S with clock := now } call active now).2])
      (start { S with clock := now } call active now) := by
  obtain ⟨-, hS'⟩ := Option.ite_none_right_eq_some.mp h
  obtain ⟨-, -, hcalls, -⟩ := Move.frame (start_moves call :
    Moves { S with clock := now } active now _ (start { S with clock := now } call active now))
  rw [← Option.some.inj hS', hcalls]
  exact ⟨rfl, rfl, rfl⟩

theorem leaves_resume {i : Nat} {outcome : Outcome}
    (h : S.step active (.resume i outcome) = some S') :
    ∃ phase, S.calls[i]? = some phase ∧
      S'.Leaves (S.calls.set i (run { S with clock := outcome.now } phase active outcome).2)
        (run { S with clock := outcome.now } phase active outcome) := by
  simp only [step] at h
  split at h
  · cases h
  · cases h
  · rename_i phase _ hphase
    obtain ⟨-, hS'⟩ := Option.ite_none_right_eq_some.mp h
    obtain ⟨-, -, hcalls, -⟩ := Move.frame (run_moves phase outcome :
      Moves { S with clock := outcome.now } active _ _
        (run { S with clock := outcome.now } phase active outcome))
    refine ⟨phase, hphase, ?_⟩
    rw [← Option.some.inj hS', hcalls]
    exact ⟨rfl, rfl, rfl⟩

theorem Leaves.shown {calls : List CallPhase} {result : Step} (h : S'.Leaves calls result)
    (hresult : S.Shown result.1) : S.Shown S' := by
  unfold Shown
  rw [h.powerState, h.transient]
  exact hresult

theorem Leaves.issued {calls : List CallPhase} {result : Step} (h : S'.Leaves calls result)
    (hresult : S.Issued result.1) : S.Issued S' := by
  unfold Issued
  rw [h.powerState, h.transient]
  exact hresult

end ServerRuntime

/-! ### Power actions and polls -/

/-- What has become of a power action. A number is that of the step it was accepted in. -/
inductive ActionStatus
  | underway
  | refused
  | accepted (step : Nat)
  /-- It was accepted, and a poll that started later has returned its target. -/
  | confirmed (step : Nat)
  deriving DecidableEq, Repr

namespace ActionStatus

def isAccepted : ActionStatus → Bool
  | .accepted _ | .confirmed _ => true
  | _ => false

/-- The action had been accepted when a poll started. -/
def isBefore (start : Nat) : ActionStatus → Bool
  | .accepted step | .confirmed step => decide (step < start)
  | _ => false

end ActionStatus

/-- A power action: the call that issued it, its target, and the coarse state the server showed
then. -/
structure IssuedAction where
  call : Nat
  target : PowerState
  shown : PowerState
  status : ActionStatus
  deriving DecidableEq, Repr

namespace IssuedAction

/-- The backend has answered. -/
def answered (call step : Nat) (accepted : Bool) (action : IssuedAction) : IssuedAction :=
  if action.call = call ∧ action.status = .underway then
    { action with status := if accepted then .accepted step else .refused }
  else action

/-- A poll that started in step `start` has returned a state. -/
def confirmedBy (start : Nat) (state : PowerState) (action : IssuedAction) : IssuedAction :=
  match action.status with
  | .accepted step =>
      if step < start ∧ action.target = state then { action with status := .confirmed step }
      else action
  | _ => action

end IssuedAction

/-- A poll that has returned: whether it was due to clear the display, what the display is
afterwards, and the power event it logs. -/
structure PollRecord where
  due : Bool
  transient : Option Transient
  logged : Option PowerEvent
  deriving DecidableEq, Repr

inductive DisplayEvent
  | issued
  | polled (record : PollRecord)
  deriving DecidableEq, Repr

/-- A server with the history of its display. -/
structure Watch where
  server : ServerRuntime
  /-- The number of steps so far, and the step in which each call started. -/
  steps : Nat
  started : List Nat
  actions : List IssuedAction
  /-- An action has been issued; since the last one, none has been refused, and the coarse state
  has not changed. -/
  unsettled : Bool
  log : List DisplayEvent

namespace Watch

/-- What a step is for the history. -/
inductive Happening
  | issued (call : Nat) (target : PowerState)
  | answered (call : Nat) (accepted : Bool)
  | polled (call : Nat) (state : PowerState)
  | other
  deriving DecidableEq, Repr

def init (config : ServerConfig) (row : ServerRow) (now : Time) : Watch where
  server := .init config row now
  steps := 0
  started := []
  actions := []
  unsettled := false
  log := []

/-- Whether the action at a position is over: it was refused, a poll has confirmed it, or it was
accepted and so was a later one. -/
def isOver (actions : List IssuedAction) (k : Nat) : Bool :=
  match actions[k]? with
  | none => true
  | some action =>
      match action.status with
      | .underway => false
      | .refused | .confirmed _ => true
      | .accepted _ => (actions.drop (k + 1)).any (fun later => later.status.isAccepted)

variable (W : Watch)

/-- A poll that returns a state is to clear the display: the state is the target of an action that
had been accepted when the poll started, and no other action is in progress. -/
def due (call : Nat) (state : PowerState) : Bool :=
  (List.range W.actions.length).any (fun k =>
    (W.actions[k]?).any (fun action =>
      decide (action.target = state) &&
        (W.started[call]?).any (fun start => action.status.isBefore start)) &&
    (List.range W.actions.length).all (fun j => decide (j = k) || isOver W.actions j))

/-- What a step of the server is, after which the server is `server`. -/
def happening (op : ServerRuntime.Op) (server : ServerRuntime) : Happening :=
  match op with
  | .call _ _ =>
      match (server.calls[W.server.calls.length]?).bind CallPhase.target? with
      | some target => .issued W.server.calls.length target
      | none => .other
  | .resume i outcome =>
      match W.server.calls[i]? with
      | some (.poweringOn _ _) | some (.poweringOff _ _ _) => .answered i outcome.accepted
      | some .polling => if outcome.raised then .other else .polled i outcome.state
      | _ =>
          match (server.calls[i]?).bind CallPhase.target? with
          | some target => .issued i target
          | none => .other
  | _ => .other

/-- The power actions after a step. -/
def nextActions : Happening → List IssuedAction
  | .issued call target => W.actions ++ [⟨call, target, W.server.powerState, .underway⟩]
  | .answered call accepted => W.actions.map (IssuedAction.answered call W.steps accepted)
  | .polled call state =>
      W.actions.map (IssuedAction.confirmedBy ((W.started[call]?).getD 0) state)
  | .other => W.actions

def nextUnsettled (server : ServerRuntime) (what : Happening) : Bool :=
  if server.powerState ≠ W.server.powerState then false
  else
    match what with
    | .issued _ _ => true
    | .answered _ false => false
    | _ => W.unsettled

def nextEvents (server : ServerRuntime) : Happening → List DisplayEvent
  | .issued _ _ => [.issued]
  | .polled call state =>
      [.polled ⟨W.due call state, server.transient,
        (server.calls[call]?).bind CallPhase.logged?⟩]
  | _ => []

/-- The history after a step of the server to `server`. -/
def next (op : ServerRuntime.Op) (server : ServerRuntime) : Watch :=
  let what := W.happening op server
  { server := server
    steps := W.steps + 1
    started :=
      match op with
      | .call _ _ => W.started ++ [W.steps]
      | _ => W.started
    actions := W.nextActions what
    unsettled := W.nextUnsettled server what
    log := W.log ++ W.nextEvents server what }

/-- The backend raises on a power action, rather than to answer it. -/
def raises : ServerRuntime.Op → Bool
  | .resume i outcome =>
      outcome.raised && ((W.server.calls[i]?).bind CallPhase.target?).isSome
  | _ => false

/-- A step of the server, with a backend that answers; it is not restarted. The flag says whether
its endpoints are active. -/
def step (op : Bool × ServerRuntime.Op) : Option Watch :=
  match op.2 with
  | .restart _ _ => none
  | _ =>
      if W.raises op.2 then none
      else (W.server.step op.1 op.2).map (fun server => W.next op.2 server)

/-- The power event of a change that others have made. -/
def externalChange : PowerEvent := ⟨.externalChange, .poll, .external, true⟩

/-- What a step does to the display, by what it is. -/
def Displays (server : ServerRuntime) : Happening → Prop
  | .issued _ _ => W.server.Issued server
  | .answered _ accepted =>
      server.powerState = W.server.powerState ∧
        server.transient = if accepted then W.server.transient else none
  | .polled call state =>
      W.server.Shown server ∧ server.powerState = state ∧
        ∀ event, (server.calls[call]?).bind CallPhase.logged? = some event →
          W.server.transient = none → event = externalChange
  | .other => W.server.Shown server

variable {W : Watch} {active : Bool} {op : ServerRuntime.Op} {server : ServerRuntime}

/-- A call that starts or goes on, other than by an answer of the backend, issues a power action or
leaves the display to the coarse state. -/
theorem displays_leaves {calls : List CallPhase} {result : ServerRuntime.Step} (i : Nat)
    (hleaves : server.Leaves calls result)
    (hresult : (W.server.Shown result.1 ∧ result.2.target? = none) ∨
      (W.server.Issued result.1 ∧ result.2.target?.isSome = true)) :
    W.Displays server
      (match result.2.target? with
        | some target => .issued i target
        | none => .other) := by
  rcases hresult with ⟨hshown, htarget⟩ | ⟨hissued, hsome⟩
  · rw [htarget]
    exact hleaves.shown hshown
  · obtain ⟨target, htarget⟩ := Option.isSome_iff_exists.mp hsome
    rw [htarget]
    exact hleaves.issued hissued

/-- The backend answers a poll, or raises. -/
theorem displays_polling {i : Nat} {outcome : Outcome}
    (hphase : W.server.calls[i]? = some .polling)
    (hset : server.calls[i]? = some
      (ServerRuntime.run { W.server with clock := outcome.now } .polling active outcome).2)
    (hleaves : server.Leaves
      (W.server.calls.set i
        (ServerRuntime.run { W.server with clock := outcome.now } .polling active outcome).2)
      (ServerRuntime.run { W.server with clock := outcome.now } .polling active outcome)) :
    W.Displays server (W.happening (.resume i outcome) server) := by
  simp only [happening, hphase]
  split
  · rename_i hraised
    have hsame : ServerRuntime.run { W.server with clock := outcome.now } .polling active outcome =
        ({ W.server with clock := outcome.now }, .ended) := by
      rw [ServerRuntime.run, if_pos hraised]
    rw [hsame] at hleaves
    exact hleaves.shown (Or.inl ⟨rfl, rfl⟩)
  · rename_i hraised
    obtain ⟨hshown, hstate, hlogged⟩ := ServerRuntime.run_polling
      { W.server with clock := outcome.now } active outcome (Bool.eq_false_iff.mpr hraised)
    refine ⟨hleaves.shown hshown, hleaves.powerState.trans hstate, ?_⟩
    intro event hevent hnone
    rw [hset] at hevent
    exact hlogged event hevent hnone

theorem displays_resume {i : Nat} {outcome : Outcome}
    (hstep : W.server.step active (.resume i outcome) = some server)
    (hraises : W.raises (.resume i outcome) = false) :
    W.Displays server (W.happening (.resume i outcome) server) := by
  obtain ⟨phase, hphase, hleaves⟩ := ServerRuntime.leaves_resume hstep
  have hset : server.calls[i]? = some
      (ServerRuntime.run { W.server with clock := outcome.now } phase active outcome).2 := by
    obtain ⟨hlt, -⟩ := List.getElem?_eq_some_iff.mp hphase
    rw [hleaves.calls, List.getElem?_set_self hlt]
  have hpowering : phase.target?.isSome = true →
      W.Displays server (.answered i outcome.accepted) := by
    intro htarget
    have hanswers : outcome.raised = false := by simpa [raises, hphase, htarget] using hraises
    obtain ⟨hpower, htransient, -⟩ := ServerRuntime.run_powering
      { W.server with clock := outcome.now } active outcome htarget hanswers
    exact ⟨hleaves.powerState.trans hpower, hleaves.transient.trans htransient⟩
  have hother : phase.target? = none → W.Displays server
      (match (ServerRuntime.run { W.server with clock := outcome.now } phase active
          outcome).2.target? with
        | some target => .issued i target
        | none => .other) := fun htarget =>
    displays_leaves i hleaves (ServerRuntime.run_shown { W.server with clock := outcome.now }
      active outcome htarget)
  by_cases hpolling : phase = .polling
  · subst hpolling
    exact displays_polling hphase hset hleaves
  · simp only [happening, hphase, hset, Option.bind_some]
    cases phase with
    | poweringOn reason initiatedBy => exact hpowering rfl
    | poweringOff reason initiatedBy tick => exact hpowering rfl
    | polling => exact absurd rfl hpolling
    | startupPolling => exact hother rfl
    | verifying tick => exact hother rfl
    | storing call rest committed tick => exact hother rfl
    | ended => exact hother rfl

theorem displays_of_step (hstep : W.server.step active op = some server)
    (hraises : W.raises op = false) (hop : ∀ degraded now, op ≠ .restart degraded now) :
    W.Displays server (W.happening op server) := by
  cases op with
  | call call now =>
      have hleaves := ServerRuntime.leaves_call hstep
      have hphase : server.calls[W.server.calls.length]? = some
          (ServerRuntime.start { W.server with clock := now } call active now).2 := by
        rw [hleaves.calls]
        exact List.getElem?_concat_length
      simp only [happening, hphase, Option.bind_some]
      exact displays_leaves _ hleaves
        (ServerRuntime.start_shown { W.server with clock := now } call active now)
  | resume i outcome => exact displays_resume hstep hraises
  | commit i =>
      have hsame : server.powerState = W.server.powerState ∧
          server.transient = W.server.transient := by
        simp only [ServerRuntime.step] at hstep
        split at hstep
        · rename_i call rest tick _
          cases hstep
          cases call <;> exact ⟨rfl, rfl⟩
        · cases hstep
      exact Or.inl hsame
  | restart degraded now => exact absurd rfl (hop degraded now)

/-! ### When the display is cleared -/

/-- The run has come to a poll that was due, and no power action has been issued since. -/
def Quieted (log : List DisplayEvent) : Prop :=
  ∃ before record after, log = before ++ .polled record :: after ∧ record.due = true ∧
    .issued ∉ after

/-- A poll that is due clears the display, and a change that a later poll sees, without a power
action in between, is one that others have made. -/
def Clears (log : List DisplayEvent) : Prop :=
  History.Always (fun before event => ∀ record, event = .polled record →
    (record.due = true → record.transient = none) ∧
    (Quieted before → ∀ logged ∈ record.logged, logged = externalChange)) log

/-- The last action was issued while the server showed its target, and has changed nothing. -/
def IssuedInTarget (W : Watch) : Prop :=
  W.unsettled = true ∧ ∃ action ∈ W.actions.getLast?, action.shown = action.target

/-- The step is not a poll that is due, returns what the server shows, and comes after a last
action that was issued while the server showed its target. -/
def Settles (W : Watch) (op : Bool × ServerRuntime.Op) : Prop :=
  match op.2 with
  | .resume i outcome =>
      W.server.calls[i]? = some .polling → outcome.raised = false →
        W.due i outcome.state = true → outcome.state = W.server.powerState → ¬ W.IssuedInTarget
  | _ => True

instance (W : Watch) : Decidable W.IssuedInTarget :=
  inferInstanceAs (Decidable (_ ∧ ∃ action ∈ W.actions.getLast?, _))

instance (W : Watch) (op : Bool × ServerRuntime.Op) : Decidable (W.Settles op) :=
  match op with
  | (_, .resume i outcome) =>
      inferInstanceAs (Decidable (W.server.calls[i]? = some .polling → outcome.raised = false →
        W.due i outcome.state = true → outcome.state = W.server.powerState → ¬ W.IssuedInTarget))
  | (_, .call _ _) => .isTrue trivial
  | (_, .commit _) => .isTrue trivial
  | (_, .restart _ _) => .isTrue trivial

/-- What the history knows of the display. -/
structure Faithful (W : Watch) : Prop where
  unsettled_iff : W.unsettled = true ↔ W.server.transient.isSome = true
  last : W.unsettled = true → ∃ action ∈ W.actions.getLast?,
    action.shown = W.server.powerState ∧ action.status ≠ .refused ∧
      ∀ step, action.status = .confirmed step → action.target = W.server.powerState
  quiet : ∀ before record after, W.log = before ++ .polled record :: after →
    record.transient = none → .issued ∉ after → W.server.transient = none

theorem faithful_init (config : ServerConfig) (row : ServerRow) (now : Time) :
    (init config row now).Faithful where
  unsettled_iff := iff_of_false Bool.false_ne_true Bool.false_ne_true
  last := fun h => absurd h Bool.false_ne_true
  quiet := fun before record after h => absurd h.symm (by simp [init])

variable {what : Happening}

/-- While the coarse state stays, an action keeps the display on, and a refusal ends it. -/
theorem Faithful.nextUnsettled_iff (h : W.Faithful) (hstep : W.Displays server what) :
    W.nextUnsettled server what = true ↔ server.transient.isSome = true := by
  have hshown : W.server.Shown server →
      ((if server.powerState ≠ W.server.powerState then false else W.unsettled) = true ↔
        server.transient.isSome = true) := by
    intro hshown
    rcases hshown with ⟨hsame, htransient⟩ | ⟨hchanged, hnone⟩
    · rw [if_neg (not_not.mpr hsame), htransient]
      exact h.unsettled_iff
    · simp [hchanged, hnone]
  unfold nextUnsettled
  cases what with
  | issued call target => simp [hstep.1, hstep.2]
  | answered call accepted =>
      obtain ⟨hsame, htransient⟩ := hstep
      cases accepted with
      | true => simpa [hsame, htransient] using h.unsettled_iff
      | false => simp [hsame, htransient]
  | polled call state => exact hshown hstep.1
  | other => exact hshown hstep

/-- Where the last action is unsettled after a step, it was so before, or the step issued it. -/
theorem unsettled_of_next (hunsettled : W.nextUnsettled server what = true) :
    server.powerState = W.server.powerState ∧
      (W.unsettled = true ∨ ∃ call target, what = .issued call target) := by
  unfold nextUnsettled at hunsettled
  split at hunsettled
  · cases hunsettled
  · rename_i hsame
    refine ⟨not_not.mp hsame, ?_⟩
    split at hunsettled
    · exact Or.inr ⟨_, _, rfl⟩
    · cases hunsettled
    · exact Or.inl hunsettled

theorem Faithful.nextLast (h : W.Faithful) (hstep : W.Displays server what)
    (hunsettled : W.nextUnsettled server what = true) :
    ∃ action ∈ (W.nextActions what).getLast?,
      action.shown = server.powerState ∧ action.status ≠ .refused ∧
        ∀ step, action.status = .confirmed step → action.target = server.powerState := by
  obtain ⟨hsame, hbefore⟩ := unsettled_of_next hunsettled
  rw [hsame]
  cases what with
  | issued call target =>
      refine ⟨⟨call, target, W.server.powerState, .underway⟩, ?_, rfl, ?_, ?_⟩
      · simp [nextActions]
      · simp
      · intro step hconfirmed
        cases hconfirmed
  | answered call accepted =>
      obtain ⟨action, hlast, hshown, hrefused, hconfirmed⟩ :=
        h.last (hbefore.resolve_right (by simp))
      have haccepted : accepted = true := by
        cases accepted with
        | true => rfl
        | false => simp [nextUnsettled, hsame] at hunsettled
      refine ⟨action.answered call W.steps accepted, ?_, ?_⟩
      · rw [nextActions, List.getLast?_map]
        exact Option.mem_map_of_mem _ hlast
      · rw [haccepted]
        unfold IssuedAction.answered
        split
        · exact ⟨hshown, by simp, by simp⟩
        · exact ⟨hshown, hrefused, hconfirmed⟩
  | polled call state =>
      obtain ⟨action, hlast, hshown, hrefused, hconfirmed⟩ :=
        h.last (hbefore.resolve_right (by simp))
      have hstate : state = W.server.powerState := hstep.2.1.symm.trans hsame
      refine ⟨action.confirmedBy ((W.started[call]?).getD 0) state, ?_, ?_⟩
      · rw [nextActions, List.getLast?_map]
        exact Option.mem_map_of_mem _ hlast
      · unfold IssuedAction.confirmedBy
        split
        · split
          · rename_i hpoll
            exact ⟨hshown, by simp, fun step _ => hpoll.2.trans hstate⟩
          · exact ⟨hshown, hrefused, hconfirmed⟩
        · exact ⟨hshown, hrefused, hconfirmed⟩
  | other => exact h.last (hbefore.resolve_right (by simp))

theorem Faithful.nextQuiet (h : W.Faithful) (hstep : W.Displays server what)
    {before after : List DisplayEvent} {record : PollRecord}
    (hlog : W.log ++ W.nextEvents server what = before ++ .polled record :: after)
    (hcleared : record.transient = none) (hissued : .issued ∉ after) :
    server.transient = none := by
  have hshown : W.server.Shown server → W.server.transient = none → server.transient = none := by
    intro hshown hnone
    rcases hshown with ⟨-, htransient⟩ | ⟨-, htransient⟩
    · rw [htransient, hnone]
    · exact htransient
  cases what with
  | issued call target =>
      rcases History.snoc_eq_iff.mp hlog with ⟨-, hevent, -⟩ | ⟨rest, -, hafter⟩
      · cases hevent
      · rw [hafter] at hissued
        exact absurd (List.mem_append_right _ (List.mem_singleton_self _)) hissued
  | answered call accepted =>
      have hnone := h.quiet before record after (by simpa [nextEvents] using hlog) hcleared hissued
      rw [hstep.2, hnone, ite_self]
  | polled call state =>
      rcases History.snoc_eq_iff.mp hlog with ⟨-, hevent, -⟩ | ⟨rest, hrest, hafter⟩
      · obtain rfl := DisplayEvent.polled.inj hevent
        exact hcleared
      · rw [hafter] at hissued
        exact hshown hstep.1 (h.quiet before record rest hrest hcleared
          fun hmem => hissued (List.mem_append_left _ hmem))
  | other =>
      exact hshown hstep
        (h.quiet before record after (by simpa [nextEvents] using hlog) hcleared hissued)

/-- The history of a step. -/
theorem exists_of_step {op : Bool × ServerRuntime.Op} {W' : Watch} (hstep : W.step op = some W') :
    ∃ server, W.Displays server (W.happening op.2 server) ∧ W' = W.next op.2 server := by
  unfold step at hstep
  split at hstep
  · cases hstep
  · rename_i hop
    split at hstep
    · cases hstep
    · rename_i hraises
      obtain ⟨server, hserver, rfl⟩ := Option.map_eq_some_iff.mp hstep
      exact ⟨server, displays_of_step hserver (Bool.eq_false_iff.mpr hraises) hop, rfl⟩

theorem Faithful.step (h : W.Faithful) {op : Bool × ServerRuntime.Op} {W' : Watch}
    (hstep : W.step op = some W') : W'.Faithful := by
  obtain ⟨server, hdisplays, rfl⟩ := exists_of_step hstep
  exact
    { unsettled_iff := h.nextUnsettled_iff hdisplays
      last := h.nextLast hdisplays
      quiet := fun _ _ _ hlog hcleared hissued => h.nextQuiet hdisplays hlog hcleared hissued }

/-- Where a poll is due, the last action has its target, or is over. -/
theorem last_of_due {call : Nat} {state : PowerState} (hdue : W.due call state = true)
    {action : IssuedAction} (hlast : action ∈ W.actions.getLast?) :
    action.target = state ∨ action.status = .refused ∨
      ∃ step, action.status = .confirmed step := by
  obtain ⟨k, -, hk⟩ := List.any_eq_true.mp hdue
  obtain ⟨htarget, hothers⟩ := Bool.and_eq_true_iff.mp hk
  have hindex : W.actions[W.actions.length - 1]? = some action := by
    rw [← List.getLast?_eq_getElem?]
    exact hlast
  have hlt : W.actions.length - 1 < W.actions.length :=
    (List.getElem?_eq_some_iff.mp hindex).1
  have hover := List.all_eq_true.mp hothers _ (List.mem_range.mpr hlt)
  rcases Bool.or_eq_true_iff.mp hover with heq | hover
  · rw [← of_decide_eq_true heq, hindex, Option.any_some] at htarget
    exact Or.inl (of_decide_eq_true (Bool.and_eq_true_iff.mp htarget).1)
  · -- nothing comes after the last action
    have hnone : W.actions.drop (W.actions.length - 1 + 1) = [] :=
      List.drop_eq_nil_of_le (by omega)
    rw [isOver, hindex, hnone] at hover
    cases hstatus : action.status with
    | underway => simp [hstatus] at hover
    | refused => exact Or.inr (Or.inl rfl)
    | accepted step => simp [hstatus] at hover
    | confirmed step => exact Or.inr (Or.inr ⟨step, rfl⟩)

/-- A poll that is due leaves the display on exactly when it returns what the server shows, and
the last action was issued while the server showed its target. -/
theorem Faithful.cleared_iff (h : W.Faithful) {call : Nat} {state : PowerState}
    (hdisplays : W.Displays server (.polled call state)) (hdue : W.due call state = true) :
    server.transient = none ↔ (state = W.server.powerState → ¬ W.IssuedInTarget) := by
  obtain ⟨hshown, hstate, -⟩ := hdisplays
  constructor
  · intro hcleared hsame hissued
    rcases hshown with ⟨-, htransient⟩ | ⟨hchanged, -⟩
    · have hsome := h.unsettled_iff.mp hissued.1
      rw [← htransient, hcleared] at hsome
      cases hsome
    · exact hchanged (hstate.trans hsame)
  · intro hsettled
    rcases hshown with ⟨hsame, htransient⟩ | ⟨-, hnone⟩
    · by_contra hstuck
      have hsome : W.server.transient.isSome = true := by
        rw [← htransient]
        exact Option.isSome_iff_ne_none.mpr hstuck
      have hunsettled := h.unsettled_iff.mpr hsome
      have hreturned : state = W.server.powerState := hstate.symm.trans hsame
      obtain ⟨action, hlast, hissued, hrefused, hconfirmed⟩ := h.last hunsettled
      refine hsettled hreturned ⟨hunsettled, action, hlast, ?_⟩
      rcases last_of_due hdue hlast with htarget | hstatus | ⟨step, hstatus⟩
      · rw [hissued, htarget, hreturned]
      · exact absurd hstatus hrefused
      · rw [hissued, hconfirmed step hstatus]
    · exact hnone

theorem happening_polled_iff {call : Nat} {state : PowerState} :
    W.happening op server = .polled call state ↔ ∃ outcome, op = .resume call outcome ∧
      W.server.calls[call]? = some .polling ∧ outcome.raised = false ∧ state = outcome.state := by
  constructor
  · intro hwhat
    unfold happening at hwhat
    split at hwhat
    · split at hwhat <;> cases hwhat
    · split at hwhat
      · cases hwhat
      · cases hwhat
      · split at hwhat
        · cases hwhat
        · rename_i hphase hraised
          cases hwhat
          exact ⟨_, rfl, hphase, Bool.eq_false_iff.mpr hraised, rfl⟩
      · split at hwhat <;> cases hwhat
    · cases hwhat
  · intro hpoll
    obtain ⟨outcome, rfl, hphase, hraised, rfl⟩ := hpoll
    simp [happening, hphase, hraised]

theorem settles_iff (server : ServerRuntime) {op : Bool × ServerRuntime.Op} : W.Settles op ↔
    ∀ call state, W.happening op.2 server = .polled call state → W.due call state = true →
      state = W.server.powerState → ¬ W.IssuedInTarget := by
  simp only [happening_polled_iff]
  unfold Settles
  constructor
  · intro hsettles call state hpoll hdue hsame
    obtain ⟨outcome, hop, hphase, hraised, rfl⟩ := hpoll
    rw [hop] at hsettles
    exact hsettles hphase hraised hdue hsame
  · intro hsettles
    split
    · rename_i i outcome hop
      intro hphase hraised hdue hsame
      exact hsettles i outcome.state ⟨outcome, hop, hphase, hraised, rfl⟩ hdue hsame
    · trivial

/-- A change that is seen after a poll that has cleared the display is not the proxy's. -/
theorem Faithful.logged_external (h : W.Faithful) (hclears : Clears W.log) {call : Nat}
    {state : PowerState} (hdisplays : W.Displays server (.polled call state))
    (hquieted : Quieted W.log) {logged : PowerEvent}
    (hlogged : (server.calls[call]?).bind CallPhase.logged? = some logged) :
    logged = externalChange := by
  obtain ⟨before, record, after, hlog, hdue, hissued⟩ := hquieted
  have hcleared := (hclears before _ after hlog record rfl).1 hdue
  exact hdisplays.2.2 logged hlogged (h.quiet before record after hlog hcleared hissued)

/-- What one step does to the history. -/
theorem Faithful.clears_step_iff (h : W.Faithful) (hclears : Clears W.log)
    {op : Bool × ServerRuntime.Op} {W' : Watch} (hstep : W.step op = some W') :
    Clears W'.log ↔ W.Settles op := by
  obtain ⟨server, hdisplays, rfl⟩ := exists_of_step hstep
  rw [settles_iff server]
  show Clears (W.log ++ W.nextEvents server (W.happening op.2 server)) ↔ _
  cases hwhat : W.happening op.2 server with
  | issued call target =>
      refine iff_of_true (History.always_snoc.mpr ⟨hclears, ?_⟩) (by simp)
      intro record hrecord
      cases hrecord
  | answered call accepted => exact iff_of_true (by simpa [nextEvents] using hclears) (by simp)
  | other => exact iff_of_true (by simpa [nextEvents] using hclears) (by simp)
  | polled call state =>
      rw [hwhat] at hdisplays
      constructor
      · intro hall call' state' heq hdue
        cases heq
        have hlast := (History.always_snoc.mp hall).2 _ rfl
        exact (h.cleared_iff hdisplays hdue).mp (hlast.1 hdue)
      · intro hsettles
        refine History.always_snoc.mpr ⟨hclears, ?_⟩
        intro record hrecord
        obtain rfl := DisplayEvent.polled.inj hrecord
        refine ⟨fun hdue => ?_, fun hquieted logged hlogged => ?_⟩
        · exact (h.cleared_iff hdisplays hdue).mpr (hsettles call state rfl hdue)
        · exact h.logged_external hclears hdisplays hquieted hlogged

/-- A history that has once gone wrong stays so. -/
theorem clears_of_step {op : Bool × ServerRuntime.Op} {W' : Watch} (hstep : W.step op = some W')
    (hclears : Clears W'.log) : Clears W.log := by
  obtain ⟨server, -, rfl⟩ := exists_of_step hstep
  intro before event after hlog
  refine hclears before event (after ++ W.nextEvents server (W.happening op.2 server)) ?_
  show W.log ++ _ = _
  rw [hlog]
  simp

variable {config : ServerConfig} {row : ServerRow} {start : Time}
  {ops : List (Bool × ServerRuntime.Op)}

/-- **When the transient display is cleared.** In a run, every poll that is due clears the display,
and every change that is seen later without a power action in between is put down to others, exactly
when no poll that is due returns what the server shows after a last action that was issued while the
server showed its target. -/
theorem clears_iff (hrun : Run (Steps step Any) (init config row start) ops W) :
    Clears W.log ↔ Run (Steps step Settles) (init config row start) ops W :=
  last_iff (fun _ _ _ h hstep => h.step hstep)
    (fun _ _ _ _ hbroken hstep hclears => hbroken (clears_of_step hstep hclears))
    (fun _ _ _ h hclears hstep => h.clears_step_iff hclears hstep) hrun
    (faithful_init config row start) (History.always_nil _)

/-- The proxy leaves the power of this server to its requests. -/
def onDemand : ServerConfig where
  idleTimeout := 600
  shutdownEnabled := false
  adoptOnTraffic := false
  lastFireBefore := none
  powerOnCooldown := 30

/-- A poll, in the call at position `i`, that returns a state. -/
def poll (i : Nat) (state : PowerState) (now : Time) : List (Bool × ServerRuntime.Op) :=
  [(false, .call .powerSyncTick now), (false, .resume i { state := state, now := now })]

/-- The operator powers the server on, in the call at position `i`, and the backend accepts. -/
def powerOn (i : Nat) (now : Time) : List (Bool × ServerRuntime.Op) :=
  [(false, .call .powerOn now), (false, .resume i { accepted := true, now := now })]

/-- A server that is off is powered on, and somebody switches it off again. -/
def poweredOnFromOff : List (Bool × ServerRuntime.Op) :=
  poll 0 .off 1 ++ powerOn 1 2 ++ poll 2 .on 3 ++ poll 3 .off 4

theorem clears_iff_poweredOnFromOff :
    ∃ W, exec (guarded step Settles) (init onDemand {} 0) poweredOnFromOff = some W ∧
      W.log = [.polled ⟨false, none, some externalChange⟩, .issued,
        .polled ⟨true, none, some ⟨.stateSync, .poll, .proxy, true⟩⟩,
        .polled ⟨false, none, some externalChange⟩] ∧ Clears W.log := by
  have hview : (exec (guarded step Settles) (init onDemand {} 0) poweredOnFromOff).map log =
      some [.polled ⟨false, none, some externalChange⟩, .issued,
        .polled ⟨true, none, some ⟨.stateSync, .poll, .proxy, true⟩⟩,
        .polled ⟨false, none, some externalChange⟩] := by decide +kernel
  obtain ⟨W, hexec, hlog⟩ := Option.map_eq_some_iff.mp hview
  have hrun := run_of_exec_guarded hexec
  exact ⟨W, hexec, hlog, (clears_iff (run_any_of_exec (exec_of_run hrun))).mpr hrun⟩

/-- A server that is on is powered on, and somebody switches it off. -/
def poweredOnFromOn : List (Bool × ServerRuntime.Op) :=
  poll 0 .on 1 ++ powerOn 1 2 ++ poll 2 .on 3 ++ poll 3 .off 4

/-- The display stays on, and the change is put down to the proxy. -/
theorem clears_counterexample :
    ∃ W, exec step (init onDemand {} 0) poweredOnFromOn = some W ∧
      W.log = [.polled ⟨false, none, some externalChange⟩, .issued,
        .polled ⟨true, some .poweringOn, none⟩,
        .polled ⟨false, none, some ⟨.stateSync, .poll, .proxy, true⟩⟩] ∧ ¬ Clears W.log := by
  have hview : (exec step (init onDemand {} 0) poweredOnFromOn).map log =
      some [.polled ⟨false, none, some externalChange⟩, .issued,
        .polled ⟨true, some .poweringOn, none⟩,
        .polled ⟨false, none, some ⟨.stateSync, .poll, .proxy, true⟩⟩] := by decide +kernel
  obtain ⟨W, hexec, hlog⟩ := Option.map_eq_some_iff.mp hview
  refine ⟨W, hexec, hlog, fun hclears => ?_⟩
  rw [hlog] at hclears
  have hpoll := hclears [_, _] _ [_] rfl _ rfl
  exact absurd (hpoll.1 rfl) (by simp)

end Watch

end Relay
