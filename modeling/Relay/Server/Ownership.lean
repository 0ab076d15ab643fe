import Relay.Library.History
import Relay.Server.Moves

/-!
# Relay.Server.Ownership

**Does the proxy power off only what it brought up?** `owned` survives a power cycle from
outside: `_power_sync_tick` records that the server went off and on again, but leaves the
flag alone. `Outside` follows what the polls record; it is `on` while the server has been
switched off and on again from outside and has not been used since.
`never_off_while_outside` shows that the engine leaves such a server on, provided the
proxy did not own it when the polls saw it come on: not in memory, not in the store, and
not in anything under way.
-/

namespace Relay

open Runs

/-- What the polls have seen of power changes from outside the proxy. -/
inductive Outside
  /-- No change from on to off. -/
  | unseen
  /-- Switched off, and not switched on since, or used through the proxy after that. -/
  | off
  /-- Switched off and on again, and not used through the proxy since. -/
  | on
  deriving DecidableEq, Repr

/-- What an event adds. An accepted power-on or a routed request ends the stretch. -/
def Outside.next : Outside → ServerEvent → Outside
  | .unseen, .polled .on .off true => .off
  | .off, .polled .off .on true => .on
  | .on, .accepted | .on, .routed _ => .off
  | stage, _ => stage

/-- What a history has seen. -/
def outside (log : List ServerEvent) : Outside := log.foldl Outside.next .unseen

theorem outside_snoc (log : List ServerEvent) (event : ServerEvent) :
    outside (log ++ [event]) = (outside log).next event := by
  simp [outside, List.foldl_append]

theorem Outside.next_accepted (stage : Outside) : stage.next .accepted ≠ .on := by
  cases stage <;> decide

theorem Outside.next_routed (stage : Outside) (now : Time) : stage.next (.routed now) ≠ .on := by
  cases stage <;> simp [Outside.next]

/-- The stretch begins with a change from off to on that no power action explains. -/
theorem Outside.eq_on_of_next {stage : Outside} {event : ServerEvent}
    (h : stage.next event = .on) :
    stage = .on ∨ stage = .off ∧ event = .polled .off .on true := by
  unfold Outside.next at h
  split at h
  · exact absurd h (by decide)
  · exact Or.inr ⟨rfl, rfl⟩
  · exact absurd h (by decide)
  · exact absurd h (by decide)
  · exact Or.inl h

/-- A tick of the schedule that has looked at the ownership already. -/
def CallPhase.passedGate : CallPhase → Bool
  | .verifying (.schedule _) | .verifying .deferred => true
  | _ => false

/-- The call neither will write that the proxy owns the server, nor relies on it. -/
def CallPhase.isUnowned (phase : CallPhase) : Bool :=
  phase.pendingWrites.all (fun call => !call.takesOwnership) && !phase.passedGate

theorem CallPhase.isQuiet.isUnowned {phase : CallPhase} (h : phase.isQuiet = true) :
    phase.isUnowned = true := by
  obtain ⟨htick, hwrites⟩ := Bool.and_eq_true_iff.mp h
  refine Bool.and_eq_true_iff.mpr ⟨hwrites, ?_⟩
  cases phase with
  | verifying tick => exact absurd htick Bool.false_ne_true
  | _ => rfl

namespace ServerRuntime

variable {S S' : ServerRuntime} {active : Bool} {now : Time} {source : Source}
  {phase : CallPhase}

/-- One step of a server, labelled with what `has_activity` answers. -/
def next (S : ServerRuntime) (l : Bool × Op) : Option ServerRuntime := S.step l.1 l.2

/-- The proxy does not own the server: not in memory, not in the store, and no call under
way takes ownership or relies on it. -/
def unowned (S : ServerRuntime) : Bool :=
  !S.owned && !S.row.owned && S.calls.all CallPhase.isUnowned

theorem unowned_iff : S.unowned = true ↔
    S.owned = false ∧ S.row.owned = false ∧ ∀ phase ∈ S.calls, phase.isUnowned = true := by
  simp [unowned, and_assoc]

/-- A poll that records, after a change from on to off, that the server has been switched
on from outside, finds it not owned. -/
def RecordsUnowned (S : ServerRuntime) (l : Bool × Op) : Prop :=
  ∀ S' ∈ S.next l, outside S.log = .off → outside S'.log = .on → S.unowned = true

instance (S : ServerRuntime) (l : Bool × Op) : Decidable (S.RecordsUnowned l) :=
  inferInstanceAs (Decidable (∀ S' ∈ S.next l, _))

/-! ### Steps -/

/-- What a call does to a server that is not owned. -/
theorem Move.unowned (h : Move S active now source S' phase) (howned : S.owned = false)
    (hsource : ∀ p o, source = .phase p o → p.isUnowned = true) (hon : outside S'.log = .on) :
    S'.owned = false ∧ phase.isUnowned = true := by
  cases h with
  | quiet hquiet => exact ⟨howned, CallPhase.isQuiet.isUnowned hquiet⟩
  | accept _ _ =>
      change outside (S.log ++ [.accepted]) = .on at hon
      rw [outside_snoc] at hon
      exact absurd hon (Outside.next_accepted _)
  | route _ =>
      have hlog : (S.onRoutedTraffic now).1.log = S.log ++ [.routed now] := by
        unfold onRoutedTraffic
        dsimp only
        split <;> rfl
      rw [hlog, outside_snoc] at hon
      exact absurd hon (Outside.next_routed _ now)
  | toggle enabled _ => exact ⟨howned, rfl⟩
  | @poll state _ _ hne =>
      rw [polled, if_neg hne]
      refine ⟨?_, ?_⟩
      · show (S.setState state).owned = false
        unfold setState
        split <;> exact howned
      · rfl
  | powerOffByHand _ => exact ⟨howned, rfl⟩
  | @gate call tick _ hgate =>
      refine ⟨howned, ?_⟩
      cases tick with
      | idle n => rfl
      | schedule fire =>
          have hown := hgate.owned (by simp)
          rw [howned] at hown
          exact absurd hown Bool.false_ne_true
      | deferred =>
          have hown := hgate.owned (by simp)
          rw [howned] at hown
          exact absurd hown Bool.false_ne_true
  | restartClock _ _ => exact ⟨howned, rfl⟩
  | powerOff _ _ => exact ⟨howned, rfl⟩
  | @off reason initiatedBy tick outcome _ =>
      cases outcome.accepted with
      | true => exact ⟨rfl, rfl⟩
      | false => exact ⟨howned, rfl⟩
  | @advance call next rest committed tick outcome hsrc =>
      refine ⟨howned, ?_⟩
      have hpending := (Bool.and_eq_true_iff.mp (hsource _ _ hsrc)).1
      refine Bool.and_eq_true_iff.mpr ⟨?_, rfl⟩
      cases committed with
      | true => exact hpending
      | false =>
          rw [CallPhase.pendingWrites] at hpending
          exact (Bool.and_eq_true_iff.mp hpending).2
  | @finish p tick _ _ _ => cases tick <;> exact ⟨howned, rfl⟩

/-- The engine issues a power-off when it owns the server, or from a tick of the schedule
that has found it owned. -/
theorem Recorded.owned {event : ServerEvent} (h : Recorded S active now source event)
    (hengine : event.isEngineOff = true) :
    S.owned = true ∨ ∃ p o, source = .phase p o ∧ p.passedGate = true := by
  cases h with
  | accepted => exact absurd hengine Bool.false_ne_true
  | routed => exact absurd hengine Bool.false_ne_true
  | polled => exact absurd hengine Bool.false_ne_true
  | byHand => exact absurd hengine (by simp [ServerEvent.isEngineOff])
  | @engine tick _ hsource howned =>
      cases tick with
      | idle n => exact Or.inl (howned n rfl)
      | schedule fire => exact Or.inr ⟨_, _, hsource, rfl⟩
      | deferred => exact Or.inr ⟨_, _, hsource, rfl⟩

/-- A history in which the engine powers off no server that was last switched on from
outside. -/
def LeavesOutsideOn (log : List ServerEvent) : Prop :=
  History.Always (fun before event => event.isEngineOff = true → outside before ≠ .on) log

/-- While the server is on from outside, the proxy does not own it; and the engine has left
it on so far. -/
structure HandsOff (S : ServerRuntime) : Prop where
  unowned : outside S.log = .on → S.unowned = true
  history : LeavesOutsideOn S.log

theorem HandsOff.init (config : ServerConfig) (row : ServerRow) (now : Time) :
    HandsOff (init config row now) where
  unowned := fun hon => absurd (show outside [] = .on from hon) (by decide)
  history := History.always_nil _

/-- A call that starts or goes on. -/
theorem HandsOff.move (h : HandsOff S) (hmove : Move S active now source S' phase)
    (hsource : ∀ p o, source = .phase p o → p ∈ S.calls)
    (hguard : outside S'.log = .on → S.unowned = true) :
    (outside S'.log = .on → S'.owned = false ∧ phase.isUnowned = true) ∧
      LeavesOutsideOn S'.log := by
  have howned : S.unowned = true →
      S.owned = false ∧ ∀ p o, source = .phase p o → p.isUnowned = true := by
    intro hun
    obtain ⟨hnot, -, hcalls⟩ := unowned_iff.mp hun
    exact ⟨hnot, fun p o hp => hcalls p (hsource p o hp)⟩
  constructor
  · intro hon
    obtain ⟨hnot, hcalls⟩ := howned (hguard hon)
    exact hmove.unowned hnot hcalls hon
  · rcases hmove.log with hlog | ⟨event, hlog, hrecorded⟩
    · rw [hlog]
      exact h.history
    · rw [hlog]
      refine History.always_snoc.mpr ⟨h.history, fun hengine hon => ?_⟩
      obtain ⟨hnot, hcalls⟩ := howned (h.unowned hon)
      rcases hrecorded.owned hengine with hown | ⟨p, o, hp, hpassed⟩
      · rw [hnot] at hown
        exact Bool.false_ne_true hown
      · have hun := hcalls p o hp
        rw [CallPhase.isUnowned, hpassed] at hun
        simp at hun

/-- A write that does not take ownership leaves the row without an owner. -/
theorem row_perform {call : StoreCall} (hrow : S.row.owned = false)
    (hcall : call.takesOwnership = false) : (S.perform call).row.owned = false := by
  cases call with
  | setServerRuntime u =>
      show u.owned.getD S.row.owned = false
      rw [hrow]
      cases hu : u.owned with
      | none => rfl
      | some owned =>
          cases owned with
          | true => simp [StoreCall.takesOwnership, hu] at hcall
          | false => rfl
  | logPowerEvent event => exact hrow

theorem perform_frame (S : ServerRuntime) (call : StoreCall) :
    (S.perform call).owned = S.owned ∧ (S.perform call).log = S.log ∧
      (S.perform call).calls = S.calls := by
  cases call <;> exact ⟨rfl, rfl, rfl⟩

/-- When the server is on from outside after a step, it was not owned before. -/
theorem HandsOff.unowned_before (h : HandsOff S) {log : List ServerEvent}
    (hlog : log = S.log ∨ ∃ event, log = S.log ++ [event] ∧ Recorded S active now source event)
    (hrecords : outside S.log = .off → outside log = .on → S.unowned = true)
    (hon : outside log = .on) : S.unowned = true := by
  rcases hlog with rfl | ⟨event, rfl, -⟩
  · exact h.unowned hon
  · have hnext := hon
    rw [outside_snoc] at hnext
    rcases Outside.eq_on_of_next hnext with hbefore | ⟨hbefore, -⟩
    · exact h.unowned hbefore
    · exact hrecords hbefore hon

/-- Every step keeps the hands off, when the poll that begins the stretch finds the server
not owned. -/
theorem HandsOff.step (h : HandsOff S) {op : Op} (hstep : S.step active op = some S')
    (hrecords : S.RecordsUnowned (active, op)) : HandsOff S' := by
  have hclock : ∀ now, HandsOff { S with clock := now } := fun now => ⟨h.unowned, h.history⟩
  rcases step_cases hstep with ⟨call, now, S₁, phase, rfl, -, hmove, rfl⟩ |
    ⟨i, outcome, p, S₁, phase, rfl, hp, -, hmove, rfl⟩ | ⟨i, call, rest, tick, rfl, hcall, rfl⟩ |
    ⟨degraded, now, rfl, -, rfl⟩
  · have hguard := (hclock now).unowned_before hmove.log
      fun hoff hon => hrecords _ hstep hoff hon
    obtain ⟨hunowned, hhistory⟩ := (hclock now).move hmove (fun p o hp => by cases hp) hguard
    refine ⟨fun hon => unowned_iff.mpr ?_, hhistory⟩
    obtain ⟨howned, hphase⟩ := hunowned hon
    obtain ⟨-, hrow, hcalls⟩ := unowned_iff.mp (hguard hon)
    refine ⟨howned, hmove.frame.2.1 ▸ hrow, ?_⟩
    intro p hp
    rcases List.mem_append.mp hp with hold | hnew
    · exact hcalls p hold
    · exact List.mem_singleton.mp hnew ▸ hphase
  · have hguard := (hclock outcome.now).unowned_before hmove.log
      fun hoff hon => hrecords _ hstep hoff hon
    have hsource : ∀ p' o, Source.phase p outcome = .phase p' o → p' ∈ S.calls := by
      rintro p' o ⟨⟩
      exact List.mem_of_getElem? hp
    obtain ⟨hunowned, hhistory⟩ := (hclock outcome.now).move hmove hsource hguard
    refine ⟨fun hon => unowned_iff.mpr ?_, hhistory⟩
    obtain ⟨howned, hphase⟩ := hunowned hon
    obtain ⟨-, hrow, hcalls⟩ := unowned_iff.mp (hguard hon)
    refine ⟨howned, hmove.frame.2.1 ▸ hrow, ?_⟩
    intro p' hp'
    rcases List.mem_or_eq_of_mem_set hp' with hold | rfl
    · exact hcalls p' hold
    · exact hphase
  · obtain ⟨hown, hlog, -⟩ := perform_frame S call
    constructor
    · intro hon
      change outside (S.perform call).log = .on at hon
      rw [hlog] at hon
      obtain ⟨hnot, hrow, hcalls⟩ := unowned_iff.mp (h.unowned hon)
      have hwrites := (Bool.and_eq_true_iff.mp (hcalls _ (List.mem_of_getElem? hcall))).1
      obtain ⟨hfirst, hrest⟩ := Bool.and_eq_true_iff.mp
        (show ((call :: rest).all fun call => !call.takesOwnership) = true from hwrites)
      refine unowned_iff.mpr ⟨hown.trans hnot, row_perform hrow (by simpa using hfirst), ?_⟩
      intro p hp
      rcases List.mem_or_eq_of_mem_set hp with hold | rfl
      · exact hcalls p hold
      · exact Bool.and_eq_true_iff.mpr ⟨hrest, rfl⟩
    · show LeavesOutsideOn (S.perform call).log
      rw [hlog]
      exact h.history
  · refine ⟨fun hon => unowned_iff.mpr ?_, h.history⟩
    obtain ⟨-, hrow, -⟩ := unowned_iff.mp (h.unowned hon)
    refine ⟨?_, hrow, fun p hp => absurd hp List.not_mem_nil⟩
    show (if degraded then ({} : ServerRow) else S.row).owned = false
    split
    · rfl
    · exact hrow

/-- **The proxy leaves a server on that was switched on from outside.** In every run in
which each poll that sees the server switched off and on again from outside finds it not
owned, the engine calls `backend.power_off` only when the proxy has been used for the
server since: a power-on was accepted, or a request was routed. -/
theorem never_off_while_outside {config : ServerConfig} {row : ServerRow} {start : Time}
    {ops : List (Bool × Op)}
    (h : Run (Steps next RecordsUnowned) (init config row start) ops S) : LeavesOutsideOn S.log :=
  (h.invariant (fun _ _ _ hs hstep => hs.step hstep.1 hstep.2)
    (HandsOff.init config row start)).history

/-- Traffic grants ownership, ten seconds of idling end it. -/
def workstation : ServerConfig where
  idleTimeout := 10
  shutdownEnabled := true
  adoptOnTraffic := true
  lastFireBefore := none
  powerOnCooldown := 30

/-- The two writes of the call at position `i`. -/
def stores (i : Nat) (now : Time) : List (Bool × Op) :=
  [(false, .commit i), (false, .resume i { now := now }), (false, .commit i),
    (false, .resume i { now := now })]

/-- The proxy starts and finds the server on. -/
def findsOn : List (Bool × Op) :=
  [(false, .call .syncState 0), (false, .resume 0 { state := .on, now := 1 })] ++ stores 0 1

/-- The operator switches the server off and on again; the calls that see it are the ones
at `i` and `i + 1`. -/
def operatorCycles (i : Nat) : List (Bool × Op) :=
  [(false, .call .powerSyncTick 20), (false, .resume i { state := .off, now := 21 })] ++
    stores i 22 ++
  [(false, .call .powerSyncTick 25), (false, .resume (i + 1) { state := .on, now := 26 })] ++
    stores (i + 1) 27

/-- An idle tick at `now` that finds the server on, in the call at position `i`. -/
def idles (i : Nat) (now : Time) : List (Bool × Op) :=
  [(false, .call .idleOffTick now), (false, .resume i { state := .on, now := now + 1 })]

/-- The server is used through the proxy only after the operator has switched it on. -/
def usedAfterwards : List (Bool × Op) :=
  findsOn ++ operatorCycles 1 ++ idles 3 100 ++ [(false, .call .onRoutedTraffic 110)] ++
    stores 4 111 ++ idles 5 200

theorem never_off_while_outside_usedAfterwards :
    ∃ S, exec (guarded next RecordsUnowned) (init workstation {} 0) usedAfterwards = some S ∧
      S.log = [.polled .on .off true, .polled .off .on true, .routed 110,
        .powerOff ⟨.idleTimeout, true, true, false, 201⟩] ∧
      LeavesOutsideOn S.log := by
  have hview : (exec (guarded next RecordsUnowned) (init workstation {} 0) usedAfterwards).map
      ServerRuntime.log = some [.polled .on .off true, .polled .off .on true, .routed 110,
        .powerOff ⟨.idleTimeout, true, true, false, 201⟩] := by decide +kernel
  obtain ⟨S, hexec, hlog⟩ := Option.map_eq_some_iff.mp hview
  exact ⟨S, hexec, hlog, never_off_while_outside (run_of_exec_guarded hexec)⟩

/-- The server has been used through the proxy before the operator cycles its power. -/
def usedBefore : List (Bool × Op) :=
  findsOn ++ [(false, .call .onRoutedTraffic 2)] ++ stores 1 3 ++ operatorCycles 2 ++ idles 4 100

/-- The engine powers off a server that was last switched on by the operator. -/
theorem never_off_while_outside_counterexample :
    ∃ S, exec next (init workstation {} 0) usedBefore = some S ∧
      S.log = [.routed 2, .polled .on .off true, .polled .off .on true,
        .powerOff ⟨.idleTimeout, true, true, false, 101⟩] ∧
      ¬ LeavesOutsideOn S.log := by
  have hview : (exec next (init workstation {} 0) usedBefore).map ServerRuntime.log =
      some [.routed 2, .polled .on .off true, .polled .off .on true,
        .powerOff ⟨.idleTimeout, true, true, false, 101⟩] := by decide +kernel
  obtain ⟨S, hexec, hlog⟩ := Option.map_eq_some_iff.mp hview
  refine ⟨S, hexec, hlog, fun hleaves => ?_⟩
  rw [hlog] at hleaves
  exact hleaves [.routed 2, .polled .on .off true, .polled .off .on true] _ [] rfl rfl rfl

end ServerRuntime

end Relay
