import Relay.Library.Counting
import Relay.Library.Runs
import Relay.Server.Mirror

/-!
# Relay.Server.Audit

**The audit trail of a server.** Each answer to a power action, each adoption and each change of
the power state that the proxy notices is worth a power event (`announced`). A call writes its
event at the end, after the row, with other calls in between; the store drops the write, or the
call is ended by an exception or by a restart before it comes to it (`forgone`).

`audit_complete` is the conservation law of the trail: what was announced is in the table, or on
its way, or forgone, and each event once. `ownership_explained` says that the trail accounts for
the ownership: the flag is what the announced events since the last start make of the row the
proxy was started with.
-/

namespace Relay

open Runs Counting

/-- The power event that is written. -/
def StoreCall.event? : StoreCall → Option PowerEvent
  | .setServerRuntime _ => none
  | .logPowerEvent event => some event

/-- The power events that writes have. -/
def eventsOf (calls : List StoreCall) : List PowerEvent := calls.filterMap StoreCall.event?

/-- The power events that a call has still to write. -/
def CallPhase.events (phase : CallPhase) : List PowerEvent := eventsOf phase.pendingWrites

@[simp] theorem CallPhase.events_ended : CallPhase.ended.events = [] := rfl

@[simp] theorem CallPhase.events_verifying (tick : ShutdownTick) :
    (CallPhase.verifying tick).events = [] := rfl

namespace ServerRuntime

variable (S : ServerRuntime)

/-- What is announced of a change that a poll sees. -/
def announcedByPoll (state : PowerState) : List PowerEvent :=
  if state = S.powerState then []
  else if S.transient.isNone then [⟨.externalChange, .poll, .external, true⟩]
  else [⟨.stateSync, .poll, .proxy, true⟩]

/-- What a call announces before its first await: that the server is adopted, or that it is on. -/
def announcedByCall : Call → List PowerEvent
  | .onRoutedTraffic =>
      if S.config.adoptOnTraffic && !S.owned then [⟨.externalChange, .adopted, .proxy, true⟩]
      else []
  | .noteServiceReady =>
      if S.powerState = .on then [] else [⟨.stateSync, .serviceReady, .proxy, true⟩]
  | _ => []

/-- What a call announces when the backend has answered. -/
def announcedByAnswer (phase : CallPhase) (outcome : Outcome) : List PowerEvent :=
  if outcome.raised then []
  else
    match phase with
    | .poweringOn reason initiatedBy => [⟨.powerOn, reason, initiatedBy, outcome.accepted⟩]
    | .poweringOff reason initiatedBy _ => [⟨.powerOff, reason, initiatedBy, outcome.accepted⟩]
    | .polling => S.announcedByPoll outcome.state
    | .startupPolling => [⟨.stateSync, .startupSync, .startup, true⟩]
    | _ => []

/-- What an operation announces. -/
def announced : Op → List PowerEvent
  | .call call _ => S.announcedByCall call
  | .resume i outcome => (S.calls[i]?).elim [] (S.announcedByAnswer · outcome)
  | .commit _ | .restart _ _ => []

/-- The events that a call will not write any more when it goes on from a write: with an
exception, all that it had left; after a write that was dropped, that one. -/
def forgoneBy (phase : CallPhase) (outcome : Outcome) : List PowerEvent :=
  match phase with
  | .storing call _ committed _ =>
      if outcome.raised then phase.events
      else if committed then []
      else eventsOf [call]
  | _ => []

/-- The events that no call will write any more after an operation. -/
def forgone : Op → List PowerEvent
  | .resume i outcome => (S.calls[i]?).elim [] (forgoneBy · outcome)
  | .restart _ _ => S.calls.flatMap CallPhase.events
  | .call _ _ | .commit _ => []

/-! ### One call -/

variable {S} {active : Bool} {now : Time}

theorem events_storing (calls : List StoreCall) (tick : Option ShutdownTick) :
    (storing calls tick).events = eventsOf calls := by
  cases calls <;> rfl

/-- What a call announces at its start, it will write. -/
theorem events_start (call : Call) :
    (S.start call active now).2.events = S.announcedByCall call := by
  have hshutdown : ∀ result : Step, S.HoldsBack result → result.2.events = [] := by
    intro result hheld
    rcases hheld.phase with hphase | ⟨tick, hphase⟩ <;> rw [hphase] <;> rfl
  cases call with
  | maybePowerOn =>
      show (S.maybePowerOn now).2.events = []
      unfold maybePowerOn
      split <;> rfl
  | onRoutedTraffic =>
      show (S.onRoutedTraffic now).2.events = if _ then _ else _
      unfold onRoutedTraffic
      dsimp only
      split <;> rfl
  | noteServiceReady =>
      show S.noteServiceReady.2.events = if _ then _ else _
      unfold noteServiceReady
      split <;> rfl
  | scheduleOffTick wall => exact hshutdown _ (scheduleOffTick_holdsBack S active wall)
  | idleOffTick => exact hshutdown _ (idleOffTick_holdsBack S active now)
  | _ => rfl

/-- A write returns: it is written or forgone, and the others follow, unless an exception ends the
call. -/
theorem events_run_storing (call : StoreCall) (rest : List StoreCall) (committed : Bool)
    (tick : Option ShutdownTick) (outcome : Outcome) :
    ((S.run (.storing call rest committed tick) active outcome).2.events ++
        forgoneBy (.storing call rest committed tick) outcome).Perm
      (CallPhase.storing call rest committed tick).events := by
  cases hraised : outcome.raised with
  | true =>
      have hrun : (S.run (.storing call rest committed tick) active outcome).2 = .ended := by
        simp [run, hraised]
      rw [hrun, forgoneBy, hraised]
      exact List.Perm.refl _
  | false =>
      have hrest : (S.run (.storing call rest committed tick) active outcome).2.events =
          eventsOf rest := by
        cases rest <;> simp [run, hraised] <;> rfl
      rw [hrest, forgoneBy, hraised]
      cases committed with
      | true => exact List.Perm.of_eq (List.append_nil _)
      | false =>
          have hpending : (CallPhase.storing call rest false tick).events =
              eventsOf [call] ++ eventsOf rest :=
            List.filterMap_append (l := [call])
          rw [hpending]
          exact List.perm_append_comm

/-- What a call has to write after an answer, and what it had to write before. -/
theorem events_run (phase : CallPhase) (outcome : Outcome) :
    ((S.run phase active outcome).2.events ++ forgoneBy phase outcome).Perm
      (phase.events ++ S.announcedByAnswer phase outcome) := by
  cases hraised : outcome.raised with
  | true =>
      have hannounced : S.announcedByAnswer phase outcome = [] := by
        simp [announcedByAnswer, hraised]
      rw [hannounced, List.append_nil]
      cases phase with
      | storing call rest committed tick =>
          exact events_run_storing call rest committed tick outcome
      | _ => simp [run, hraised, forgoneBy, CallPhase.events, CallPhase.pendingWrites, eventsOf]
  | false =>
      unfold announcedByAnswer
      rw [hraised]
      cases phase with
      | poweringOn reason initiatedBy =>
          unfold run
          rw [hraised]
          cases outcome.accepted <;> exact List.Perm.refl _
      | poweringOff reason initiatedBy tick =>
          unfold run
          rw [hraised]
          cases outcome.accepted <;> exact List.Perm.refl _
      | polling =>
          have hpolled : (S.polled outcome.state).2.events = S.announcedByPoll outcome.state := by
            unfold polled announcedByPoll
            split
            · rfl
            · dsimp only
              rw [events_storing]
              split <;> rfl
          unfold run
          rw [hraised]
          refine List.Perm.of_eq ((List.append_nil _).trans ?_)
          exact hpolled
      | startupPolling =>
          unfold run
          rw [hraised]
          exact List.Perm.refl _
      | verifying tick =>
          have hverified : (S.verified active outcome.now tick outcome.state).2.events = [] := by
            rcases verified_cases S active outcome.now tick outcome.state with hoff | hheld
            · rw [hoff]
              rfl
            · rcases hheld.phase with hphase | ⟨tick', hphase⟩ <;> rw [hphase] <;> rfl
          unfold run
          rw [hraised]
          exact List.Perm.of_eq ((List.append_nil _).trans hverified)
      | storing call rest committed tick =>
          refine (events_run_storing call rest committed tick outcome).trans ?_
          exact List.Perm.of_eq (List.append_nil _).symm
      | ended =>
          unfold run
          rw [hraised]
          exact List.Perm.refl _

end ServerRuntime

/-! ### The trail of a server -/

/-- What an event says about the ownership. -/
def PowerEvent.ownership (owned : Bool) (event : PowerEvent) : Bool :=
  match event.action with
  | .powerOn => owned || event.success
  | .powerOff => owned && !event.success
  | .externalChange => owned || decide (event.reason = .adopted)
  | .stateSync => owned

/-- A server and the history of its trail. `restored` is the ownership of the row it was started
with, and `since` what has been announced since then. -/
structure Trail where
  server : ServerRuntime
  announced : List PowerEvent
  forgone : List PowerEvent
  restored : Bool
  since : List PowerEvent

namespace Trail

/-- The proxy has been started over the row the store has. -/
def started (config : ServerConfig) (row : ServerRow) (now : Time) : Trail where
  server := (ServerRuntime.init config row now).restart false now
  announced := []
  forgone := []
  restored := row.owned
  since := []

/-- One step of the server, with what `has_activity` answers. -/
def step (T : Trail) (l : Bool × ServerRuntime.Op) : Option Trail :=
  (T.server.step l.1 l.2).map fun server =>
    { server := server
      announced := T.announced ++ T.server.announced l.2
      forgone := T.forgone ++ T.server.forgone l.2
      restored := match l.2 with
        | .restart degraded _ => !degraded && T.server.row.owned
        | _ => T.restored
      since := match l.2 with
        | .restart _ _ => []
        | op => T.since ++ T.server.announced op }

/-- The events that are on their way. -/
def pending (T : Trail) : List PowerEvent := T.server.calls.flatMap CallPhase.events

/-- What was announced is written, on its way, or forgone. -/
def Complete (T : Trail) : Prop :=
  T.announced.Perm (T.server.events ++ T.pending ++ T.forgone)

end Trail

namespace ServerRuntime

variable {S S' : ServerRuntime} {active : Bool} {op : Op}

/-- The calls leave the table alone. -/
theorem events_move {now : Time} {source : Source} {phase : CallPhase}
    (h : Move S active now source S' phase) : S'.events = S.events := by
  cases h with
  | route =>
      unfold onRoutedTraffic
      dsimp only
      split <;> rfl
  | @poll state outcome hsource hne =>
      rw [polled, if_neg hne]
      show (S.setState state).events = _
      unfold setState
      split <;> rfl
  | @off reason initiatedBy tick outcome hsource => cases outcome.accepted <;> rfl
  | @finish phase tick outcome hsource htick => cases tick <;> rfl
  | _ => rfl

/-- **Step lemma of the trail.** What an operation announces is added to what is written or on its
way, and what it forgoes is taken away. -/
theorem trail_step (h : S.step active op = some S') :
    (S'.events ++ S'.calls.flatMap CallPhase.events ++ S.forgone op).Perm
      (S.events ++ S.calls.flatMap CallPhase.events ++ S.announced op) := by
  cases op with
  | call call now =>
      obtain ⟨-, hS'⟩ := Option.ite_none_right_eq_some.mp h
      obtain rfl := Option.some.inj hS'
      have hmove : Moves { S with clock := now } active now (.call call)
        (start { S with clock := now } call active now) := start_moves call
      have hstart : (start { S with clock := now } call active now).2.events =
        S.announcedByCall call := events_start (S := { S with clock := now }) call
      show ((start { S with clock := now } call active now).1.events ++
        ((start { S with clock := now } call active now).1.calls ++ _).flatMap _ ++ []).Perm _
      rw [events_move hmove, hmove.frame.2.2.1, List.flatMap_append, List.flatMap_singleton, hstart,
        List.append_nil, ← List.append_assoc]
      exact List.Perm.refl _
  | resume i outcome =>
      simp only [step] at h
      split at h
      · exact absurd h (by simp)
      · exact absurd h (by simp)
      · rename_i source hne hsource
        obtain ⟨-, hS'⟩ := Option.ite_none_right_eq_some.mp h
        obtain rfl := Option.some.inj hS'
        have hmove : Moves { S with clock := outcome.now } active outcome.now
            (.phase source outcome) (run { S with clock := outcome.now } source active outcome) :=
          run_moves source outcome
        have hrun := @events_run { S with clock := outcome.now } active source outcome
        have hset := flatMap_set_perm CallPhase.events
          (b := (run { S with clock := outcome.now } source active outcome).2) hsource
        have hforgone : S.forgone (.resume i outcome) = forgoneBy source outcome := by
          simp [forgone, hsource]
        have hannounced : S.announced (.resume i outcome) =
            announcedByAnswer { S with clock := outcome.now } source outcome := by
          rw [announced, hsource]
          rfl
        rw [events_move hmove, hmove.frame.2.2.1, hforgone, hannounced]
        refine List.perm_iff_count.mpr fun event => ?_
        have hcountRun := hrun.count_eq event
        have hcountSet := hset.count_eq event
        simp only [List.count_append] at hcountRun hcountSet ⊢
        omega
  | commit i =>
      simp only [step] at h
      split at h
      · rename_i call rest tick hcall
        obtain rfl := Option.some.inj h
        have hset := flatMap_set_perm CallPhase.events (b := .storing call rest true tick) hcall
        have hwritten : (S.perform call).events = S.events ++ eventsOf [call] := by
          cases call with
          | setServerRuntime u => exact (List.append_nil _).symm
          | logPowerEvent event => rfl
        have hpending : (CallPhase.storing call rest false tick).events =
            eventsOf [call] ++ eventsOf rest :=
          List.filterMap_append (l := [call])
        have hrest : (CallPhase.storing call rest true tick).events = eventsOf rest := rfl
        refine List.perm_iff_count.mpr fun event => ?_
        have hcountSet := hset.count_eq event
        rw [hpending, hrest] at hcountSet
        simp only [hwritten, forgone, announced, List.count_append, List.count_nil]
          at hcountSet ⊢
        omega
      · exact absurd h (by simp)
  | restart degraded now =>
      obtain ⟨-, hS'⟩ := Option.ite_none_right_eq_some.mp h
      obtain rfl := Option.some.inj hS'
      show (S.events ++ [] ++ S.calls.flatMap CallPhase.events).Perm
        (S.events ++ S.calls.flatMap CallPhase.events ++ [])
      rw [List.append_nil, List.append_nil]

/-! ### Ownership -/

theorem owned_of_follows {result : Step} (h : Follows S result) (hphase : result.2.update? = none) :
    result.1.owned = S.owned := by
  have hmemory := h.memory
  rw [hphase] at hmemory
  exact congrArg ServerRow.owned hmemory

theorem owned_setState (state : PowerState) : (S.setState state).owned = S.owned :=
  congrArg ServerRow.owned (memory_setState state)

/-- A shutdown tick that holds back leaves the ownership alone. -/
theorem owned_of_holdsBack {result : Step} (hheld : S.HoldsBack result) (h : Follows S result) :
    result.1.owned = S.owned := by
  refine owned_of_follows h ?_
  rcases hheld.phase with hphase | ⟨tick, hphase⟩ <;> rw [hphase] <;> rfl

/-- A call announces at its start what it does to the ownership. -/
theorem owned_start {now : Time} (call : Call) :
    (S.start call active now).1.owned =
      (S.announcedByCall call).foldl PowerEvent.ownership S.owned := by
  cases call with
  | maybePowerOn =>
      show (S.maybePowerOn now).1.owned = S.owned
      unfold maybePowerOn
      split <;> rfl
  | onRoutedTraffic =>
      show (S.onRoutedTraffic now).1.owned = _
      unfold onRoutedTraffic announcedByCall
      dsimp only
      split
      · simp [PowerEvent.ownership]
      · rfl
  | noteServiceReady =>
      show S.noteServiceReady.1.owned = _
      unfold noteServiceReady announcedByCall
      split
      · rfl
      · exact owned_setState .on
  | scheduleOffTick wall =>
      exact owned_of_holdsBack (scheduleOffTick_holdsBack S active wall)
        (scheduleOffTick_follows wall)
  | idleOffTick =>
      exact owned_of_holdsBack (idleOffTick_holdsBack S active now) idleOffTick_follows
  | _ => rfl

/-- And so does an answer. -/
theorem owned_run (phase : CallPhase) (outcome : Outcome) :
    (S.run phase active outcome).1.owned =
      (S.announcedByAnswer phase outcome).foldl PowerEvent.ownership S.owned := by
  unfold run announcedByAnswer
  split
  · rfl
  · cases phase with
    | poweringOn reason initiatedBy =>
        show (S.poweredOn reason initiatedBy outcome.accepted).1.owned = _
        cases outcome.accepted <;> simp [poweredOn, PowerEvent.ownership]
    | poweringOff reason initiatedBy tick =>
        show (S.poweredOff reason initiatedBy tick outcome.accepted).1.owned = _
        cases outcome.accepted <;> simp [poweredOff, PowerEvent.ownership]
    | polling =>
        show (S.polled outcome.state).1.owned = (S.announcedByPoll outcome.state).foldl _ _
        unfold polled announcedByPoll
        split
        · rfl
        · dsimp only
          rw [owned_setState]
          split <;> simp [PowerEvent.ownership]
    | startupPolling => exact owned_setState _
    | verifying tick =>
        show (S.verified active outcome.now tick outcome.state).1.owned = S.owned
        rcases verified_cases S active outcome.now tick outcome.state with hoff | hheld
        · rw [hoff]
          rfl
        · exact owned_of_holdsBack hheld (verified_follows tick outcome.state)
    | storing call rest committed tick =>
        cases rest with
        | nil => exact congrArg ServerRow.owned (memory_finishTick tick)
        | cons next rest => rfl
    | ended => rfl

/-- **Step lemma of the ownership.** An operation announces what it does to the ownership; a
restart takes it from the row. -/
theorem owned_step (h : S.step active op = some S') :
    S'.owned = match op with
      | .restart degraded _ => !degraded && S.row.owned
      | op => (S.announced op).foldl PowerEvent.ownership S.owned := by
  cases op with
  | call call now =>
      obtain ⟨-, hS'⟩ := Option.ite_none_right_eq_some.mp h
      obtain rfl := Option.some.inj hS'
      exact owned_start (S := { S with clock := now }) call
  | resume i outcome =>
      simp only [step] at h
      split at h
      · exact absurd h (by simp)
      · exact absurd h (by simp)
      · rename_i source hne hsource
        obtain ⟨-, hS'⟩ := Option.ite_none_right_eq_some.mp h
        obtain rfl := Option.some.inj hS'
        have hannounced : S.announced (.resume i outcome) =
            announcedByAnswer { S with clock := outcome.now } source outcome := by
          rw [announced, hsource]
          rfl
        dsimp only
        rw [hannounced]
        exact owned_run (S := { S with clock := outcome.now }) source outcome
  | commit i =>
      simp only [step] at h
      split at h
      · rename_i call rest tick hcall
        obtain rfl := Option.some.inj h
        cases call <;> rfl
      · exact absurd h (by simp)
  | restart degraded now =>
      obtain ⟨-, hS'⟩ := Option.ite_none_right_eq_some.mp h
      obtain rfl := Option.some.inj hS'
      cases degraded <;> rfl

end ServerRuntime

namespace Trail

/-- The trail is complete, and accounts for the ownership. -/
structure Sound (T : Trail) : Prop where
  complete : T.Complete
  ownership : T.server.owned = T.since.foldl PowerEvent.ownership T.restored

theorem Sound.started (config : ServerConfig) (row : ServerRow) (now : Time) :
    (started config row now).Sound :=
  ⟨List.Perm.refl [], rfl⟩

theorem Sound.step {T T' : Trail} {l : Bool × ServerRuntime.Op} (hT : T.Sound)
    (h : T.step l = some T') : T'.Sound := by
  obtain ⟨server, hserver, rfl⟩ := Option.map_eq_some_iff.mp h
  constructor
  · have hstep := ServerRuntime.trail_step hserver
    refine List.perm_iff_count.mpr fun event => ?_
    have hcountStep := hstep.count_eq event
    have hcount := hT.complete.count_eq event
    simp only [pending, List.count_append] at hcount hcountStep ⊢
    omega
  · have howned := ServerRuntime.owned_step hserver
    obtain ⟨active, op⟩ := l
    cases op with
    | restart degraded now => exact howned
    | _ =>
        refine howned.trans ?_
        simp only [List.foldl_append, hT.ownership]

/-- **Run lemma.** -/
theorem Sound.of_run {config : ServerConfig} {row : ServerRow} {now : Time}
    {ls : List (Bool × ServerRuntime.Op)} {T : Trail}
    (h : exec Trail.step (.started config row now) ls = some T) : T.Sound :=
  (run_any_of_exec h).invariant (I := Trail.Sound) (fun _ _ _ hT hstep => hT.step hstep.1)
    (.started config row now)

/-- **The audit trail is complete.** However the calls of a server interleave, and whatever becomes
of its writes: every power event that was announced is in the table, on its way, or forgone, as
often as it was announced, and there is no other event in the table. When nothing was forgone and
every call has ended, the table has exactly what was announced. -/
theorem audit_complete {config : ServerConfig} {row : ServerRow} {now : Time}
    {ls : List (Bool × ServerRuntime.Op)} {T : Trail}
    (h : exec Trail.step (.started config row now) ls = some T) :
    T.announced.Perm (T.server.events ++ T.pending ++ T.forgone) ∧
      (T.forgone = [] → (∀ phase ∈ T.server.calls, phase = .ended) →
        T.announced.Perm T.server.events) := by
  have hcomplete : T.announced.Perm (T.server.events ++ T.pending ++ T.forgone) :=
    (Sound.of_run h).complete
  refine ⟨hcomplete, fun hforgone hended => ?_⟩
  have hpending : T.pending = [] := by
    refine List.flatMap_eq_nil_iff.mpr fun phase hphase => ?_
    rw [hended phase hphase, CallPhase.events_ended]
  rw [hpending, hforgone, List.append_nil, List.append_nil] at hcomplete
  exact hcomplete

/-- A server that is adopted, and then powered off from the monitor. -/
def adoptedServer : ServerConfig where
  idleTimeout := 900
  shutdownEnabled := true
  adoptOnTraffic := true
  lastFireBefore := none
  powerOnCooldown := 30

/-- Both calls write their row and their event. -/
def adoptedRun : List (Bool × ServerRuntime.Op) :=
  [(false, .call .onRoutedTraffic 1), (true, .commit 0), (true, .resume 0 { now := 2 }),
    (true, .commit 0), (true, .call .powerOff 3), (true, .resume 0 { now := 4 }),
    (true, .resume 1 { accepted := true, now := 5 }), (true, .commit 1),
    (true, .resume 1 { now := 6 }), (true, .commit 1), (true, .resume 1 { now := 7 })]

theorem audit_complete_adoptedRun :
    ∃ T, exec Trail.step (.started adoptedServer {} 0) adoptedRun = some T ∧
      T.announced.Perm T.server.events ∧ T.server.events.length = 2 := by
  have hrun : ∃ T, exec Trail.step (.started adoptedServer {} 0) adoptedRun = some T ∧
      T.forgone = [] ∧ (∀ phase ∈ T.server.calls, phase = .ended) ∧
      T.server.events.length = 2 := ⟨_, rfl, by decide, by decide, by decide⟩
  obtain ⟨T, hT, hforgone, hended, hlength⟩ := hrun
  exact ⟨T, hT, (audit_complete hT).2 hforgone hended, hlength⟩

/-- **The trail explains the ownership.** In every state that a run reaches, the proxy owns the
server exactly when the events announced since the last start say so, read one after the other
over the row it was started with: a power-on that was accepted and an adoption take it, a
power-off that was accepted gives it up, and nothing else changes it. -/
theorem ownership_explained {config : ServerConfig} {row : ServerRow} {now : Time}
    {ls : List (Bool × ServerRuntime.Op)} {T : Trail}
    (h : exec Trail.step (.started config row now) ls = some T) :
    T.server.owned = T.since.foldl PowerEvent.ownership T.restored :=
  (Sound.of_run h).ownership

theorem ownership_explained_adoptedRun :
    ∃ T, exec Trail.step (.started adoptedServer {} 0) adoptedRun = some T ∧
      T.server.owned = false := by
  have hrun : ∃ T, exec Trail.step (.started adoptedServer {} 0) adoptedRun = some T ∧
      T.since.foldl PowerEvent.ownership T.restored = false := ⟨_, rfl, by decide⟩
  obtain ⟨T, hT, hsince⟩ := hrun
  exact ⟨T, hT, (ownership_explained hT).trans hsince⟩

end Trail

end Relay
