import Relay.Server.Moves

/-!
# Relay.Server.Mirror

**The row of a server mirrors its runtime.** A call changes the runtime first and the row
later, at its write, with other calls in between; each write is a partial update. When every
write succeeds and the write lock is granted in the order of its requests, the updates that
are still on their way take the row to what the runtime has (`Mirrors`). Whenever nothing is
pending, then, a restart restores the runtime (`row_eq_of_run`).

The lock is a field of `Locked`, over the server: the calls that have requested to write the
row, in the order of their requests.
-/

namespace Relay

open Runs

/-! ### Rows -/

/-- The row as `restore` reads it. -/
def ServerRow.restored (row : ServerRow) : ServerRow :=
  { row with powerState := some (row.powerState.getD .unknown) }

/-- `restore` takes a power state that is one. -/
theorem ServerRow.restored_eq {row : ServerRow} (h : row.powerState ≠ none) :
    row.restored = row := by
  obtain ⟨state, hstate⟩ := Option.ne_none_iff_exists'.mp h
  show ServerRow.mk (some (row.powerState.getD .unknown)) _ _ _ = row
  rw [hstate, Option.getD_some, ← hstate]

namespace RowUpdate

@[simp] theorem apply_empty (row : ServerRow) : ({} : RowUpdate).apply row = row := rfl

/-- Writing and restoring commute. -/
theorem apply_restored (u : RowUpdate) (row : ServerRow) :
    (u.apply row).restored = u.apply row.restored := by
  cases hstate : u.powerState with
  | none => simp [apply, ServerRow.restored, hstate]
  | some state => simp [apply, ServerRow.restored, hstate]

theorem apply_powerState_ne_none (u : RowUpdate) {row : ServerRow} (h : row.powerState ≠ none) :
    (u.apply row).powerState ≠ none := by
  cases hstate : u.powerState with
  | none => simpa [apply, hstate] using h
  | some state => simp [apply, hstate]

/-- The row after a list of updates. -/
def applyAll (us : List RowUpdate) (row : ServerRow) : ServerRow :=
  us.foldl (fun row u => u.apply row) row

@[simp] theorem applyAll_nil (row : ServerRow) : applyAll [] row = row := rfl

@[simp] theorem applyAll_cons (u : RowUpdate) (us : List RowUpdate) (row : ServerRow) :
    applyAll (u :: us) row = applyAll us (u.apply row) := rfl

@[simp] theorem applyAll_append (us vs : List RowUpdate) (row : ServerRow) :
    applyAll (us ++ vs) row = applyAll vs (applyAll us row) :=
  List.foldl_append

end RowUpdate

namespace CallPhase

/-- The update of the row that a call has requested and that is not made yet. -/
def update? : CallPhase → Option RowUpdate
  | .storing (.setServerRuntime u) _ false _ => some u
  | _ => none

/-- The writes that follow the one a call is suspended at are power events. -/
def LogsAfter : CallPhase → Prop
  | .storing _ rest _ _ => ∀ call ∈ rest, ∃ event, call = .logPowerEvent event
  | _ => True

end CallPhase

namespace ServerRuntime

/-- The columns of the row, as the runtime has them. -/
def memory (S : ServerRuntime) : ServerRow where
  powerState := some S.powerState
  owned := S.owned
  shutdownOverride := S.shutdownOverride
  cycleId := S.cycleId

/-! ### What a call changes, it writes -/

/-- What the synchronous part of a call changes in the runtime is what it requests to write,
and it requests that at once. -/
structure Follows (S : ServerRuntime) (result : Step) : Prop where
  memory : result.1.memory = (result.2.update?.getD {}).apply S.memory
  logs : result.2.LogsAfter

variable {S : ServerRuntime} {active : Bool} {now : Time}

@[simp] theorem memory_setState (state : PowerState) :
    (S.setState state).memory = { S.memory with powerState := some state } := by
  unfold setState
  split
  · rename_i heq
    rw [heq]
    rfl
  · rfl

@[simp] theorem memory_finishTick (tick : Option ShutdownTick) :
    (S.finishTick tick).memory = S.memory := by
  rcases tick with - | tick
  · rfl
  · cases tick <;> rfl

/-- A call that leaves the columns alone and has no row to write. -/
theorem follows_of_memory {T : ServerRuntime} {phase : CallPhase} (hmemory : T.memory = S.memory)
    (hphase : phase.update? = none) (hlogs : phase.LogsAfter) : Follows S (T, phase) where
  memory := by rw [hphase]; exact hmemory
  logs := hlogs

/-- A write of any kind comes first, a power event may follow. -/
theorem logsAfter_last (call : StoreCall) (tick : Option ShutdownTick) :
    (storing [call] tick).LogsAfter := by
  intro later hlater
  exact absurd hlater List.not_mem_nil

theorem logsAfter_event (call : StoreCall) (event : PowerEvent) (tick : Option ShutdownTick) :
    (storing [call, .logPowerEvent event] tick).LogsAfter := by
  intro later hlater
  exact ⟨event, List.mem_singleton.mp hlater⟩

theorem canPowerOff_follows (tick : ShutdownTick) : Follows S (S.canPowerOff tick) := by
  unfold canPowerOff
  split
  · exact follows_of_memory rfl rfl trivial
  · exact follows_of_memory (memory_finishTick _) rfl trivial

theorem scheduleOffTick_follows (wall : Time) : Follows S (S.scheduleOffTick active wall) := by
  unfold scheduleOffTick
  cases S.config.lastFireBefore with
  | none => exact follows_of_memory rfl rfl trivial
  | some lastFireBefore =>
      cases S.lastFiredCron with
      | none => exact follows_of_memory rfl rfl trivial
      | some lastFired =>
          dsimp only
          split
          · split
            · exact canPowerOff_follows _
            · exact follows_of_memory rfl rfl trivial
          · split
            · exact follows_of_memory rfl rfl trivial
            · exact canPowerOff_follows _

theorem idleOffTick_follows : Follows S (S.idleOffTick active now) := by
  unfold idleOffTick
  split
  · exact follows_of_memory rfl rfl trivial
  · split
    · exact follows_of_memory rfl rfl trivial
    · split
      · exact follows_of_memory rfl rfl trivial
      · exact follows_of_memory rfl rfl trivial

theorem maybePowerOn_follows : Follows S (S.maybePowerOn now) := by
  unfold maybePowerOn
  split
  · exact follows_of_memory rfl rfl trivial
  · exact follows_of_memory rfl rfl trivial

/-- Adopting the server keeps a cycle it has. -/
theorem onRoutedTraffic_follows : Follows S (S.onRoutedTraffic now) := by
  unfold onRoutedTraffic
  dsimp only
  split
  · exact ⟨rfl, logsAfter_event _ _ none⟩
  · exact follows_of_memory rfl rfl trivial

theorem noteServiceReady_follows : Follows S S.noteServiceReady := by
  unfold noteServiceReady
  split
  · exact follows_of_memory rfl rfl trivial
  · exact ⟨memory_setState .on, logsAfter_event _ _ none⟩

theorem start_follows (call : Call) : Follows S (S.start call active now) := by
  cases call with
  | maybePowerOn => exact maybePowerOn_follows
  | powerOn => exact follows_of_memory rfl rfl trivial
  | powerOff => exact follows_of_memory rfl rfl trivial
  | onRoutedTraffic => exact onRoutedTraffic_follows
  | noteServiceReady => exact noteServiceReady_follows
  | setShutdownOverride enabled => exact ⟨rfl, logsAfter_last _ none⟩
  | powerSyncTick => exact follows_of_memory rfl rfl trivial
  | syncState => exact follows_of_memory rfl rfl trivial
  | scheduleOffTick wall => exact scheduleOffTick_follows wall
  | idleOffTick => exact idleOffTick_follows

theorem poweredOn_follows (reason : PowerReason) (initiatedBy : Initiator) (ok : Bool) :
    Follows S (S.poweredOn reason initiatedBy ok) := by
  cases ok with
  | true => exact ⟨rfl, logsAfter_event _ _ none⟩
  | false => exact follows_of_memory rfl rfl (logsAfter_last _ none)

theorem poweredOff_follows (reason : PowerReason) (initiatedBy : Initiator)
    (tick : Option ShutdownTick) (ok : Bool) :
    Follows S (S.poweredOff reason initiatedBy tick ok) := by
  cases ok with
  | true => exact ⟨rfl, logsAfter_event _ _ tick⟩
  | false => exact follows_of_memory rfl rfl (logsAfter_last _ tick)

theorem polled_follows (state : PowerState) : Follows S (S.polled state) := by
  unfold polled
  split
  · exact follows_of_memory rfl rfl trivial
  · exact ⟨memory_setState state, logsAfter_event _ _ none⟩

theorem startupPolled_follows (state : PowerState) (healthy : Bool) :
    Follows S (S.startupPolled state healthy) :=
  ⟨memory_setState _, logsAfter_event _ _ none⟩

theorem verified_follows (tick : ShutdownTick) (state : PowerState) :
    Follows S (S.verified active now tick state) := by
  have hend : Follows S (S.finishTick (some tick), .ended) :=
    follows_of_memory (memory_finishTick _) rfl trivial
  cases tick with
  | idle n =>
      show Follows S (if state = .on then _ else _)
      split
      · split
        · exact follows_of_memory rfl rfl trivial
        · exact hend
      · exact follows_of_memory rfl rfl trivial
  | schedule fire =>
      show Follows S (if state = .on then _ else _)
      split
      · exact follows_of_memory rfl rfl trivial
      · exact hend
  | deferred =>
      show Follows S (if state = .on then _ else _)
      split
      · exact follows_of_memory rfl rfl trivial
      · exact hend

theorem run_follows {phase : CallPhase} (hlogs : phase.LogsAfter) (outcome : Outcome) :
    Follows S (S.run phase active outcome) := by
  unfold run
  split
  · exact follows_of_memory rfl rfl trivial
  · cases phase with
    | poweringOn reason initiatedBy => exact poweredOn_follows reason initiatedBy _
    | poweringOff reason initiatedBy tick => exact poweredOff_follows reason initiatedBy tick _
    | polling => exact polled_follows outcome.state
    | startupPolling => exact startupPolled_follows outcome.state outcome.healthy
    | verifying tick => exact verified_follows tick outcome.state
    | storing call rest committed tick =>
        cases rest with
        | nil => exact follows_of_memory (memory_finishTick tick) rfl trivial
        | cons next rest =>
            -- what follows a write of the row is a power event
            obtain ⟨event, rfl⟩ := hlogs next List.mem_cons_self
            exact follows_of_memory rfl rfl fun call hcall =>
              hlogs call (List.mem_cons_of_mem _ hcall)
    | ended => exact follows_of_memory rfl rfl trivial

/-- A call that starts. -/
theorem call_follows {S' : ServerRuntime} {call : Call}
    (h : S.step active (.call call now) = some S') :
    ∃ T phase, Follows S (T, phase) ∧ T.row = S.row ∧
      S' = { T with calls := S.calls ++ [phase] } := by
  obtain ⟨-, hS'⟩ := Option.ite_none_right_eq_some.mp h
  have hmove : Moves { S with clock := now } active now (.call call)
      (start { S with clock := now } call active now) := start_moves call
  have hran : Follows { S with clock := now } (start { S with clock := now } call active now) :=
    start_follows call
  generalize start { S with clock := now } call active now = result at hS' hmove hran
  refine ⟨result.1, result.2, ⟨hran.memory, hran.logs⟩, hmove.frame.2.1, ?_⟩
  rw [← Option.some.inj hS', hmove.frame.2.2.1]

/-- A call that moves. -/
theorem resume_follows {S' : ServerRuntime} {i : Nat} {outcome : Outcome}
    (h : S.step active (.resume i outcome) = some S')
    (hlogs : ∀ phase ∈ S.calls, phase.LogsAfter) :
    ∃ source T phase, S.calls[i]? = some source ∧ Follows S (T, phase) ∧ T.row = S.row ∧
      S' = { T with calls := S.calls.set i phase } := by
  simp only [step] at h
  split at h
  · exact absurd h (by simp)
  · exact absurd h (by simp)
  · rename_i source hne hsource
    obtain ⟨-, hS'⟩ := Option.ite_none_right_eq_some.mp h
    have hmove : Moves { S with clock := outcome.now } active outcome.now
        (.phase source outcome) (run { S with clock := outcome.now } source active outcome) :=
      run_moves source outcome
    have hran : Follows { S with clock := outcome.now }
        (run { S with clock := outcome.now } source active outcome) :=
      run_follows (hlogs source (List.mem_of_getElem? hsource)) outcome
    generalize run { S with clock := outcome.now } source active outcome = result
      at hS' hmove hran
    refine ⟨source, result.1, result.2, hsource, ⟨hran.memory, hran.logs⟩, hmove.frame.2.1, ?_⟩
    rw [← Option.some.inj hS', hmove.frame.2.2.1]

end ServerRuntime

/-! ### The write lock -/

/-- A server, and the calls that have requested to write its row and have not written yet, in
the order in which they requested the write lock. -/
structure Locked where
  server : ServerRuntime
  lock : List Nat

namespace Locked

open ServerRuntime

/-- What a call has requested to write into the row. -/
def requested (calls : List CallPhase) (i : Nat) : Option RowUpdate :=
  calls[i]?.bind CallPhase.update?

/-- `reconcile_servers` and `restore` have started the runtime. -/
def started (config : ServerConfig) (row : ServerRow) (now : Time) : Locked where
  server := (ServerRuntime.init config row now).restart false now
  lock := []

variable (L : Locked)

/-- Every write succeeds: its await returns after the write, and raises nothing. -/
def served (phase : CallPhase) (outcome : Outcome) : Bool :=
  match phase with
  | .storing _ _ committed _ => committed && !outcome.raised
  | _ => true

/-- The server has moved, and call `i` requests the lock when it comes to a write of the
row. -/
def request (server : ServerRuntime) (i : Nat) : Locked where
  server := server
  lock := if (requested server.calls i).isSome then L.lock ++ [i] else L.lock

/-- The lock is granted to the first that requested it. -/
def mayCommit (i : Nat) : Bool :=
  (requested L.server.calls i).isNone || decide (L.lock.head? = some i)

/-- One step of the server. When the lock is granted to a call, it writes the row and passes
the lock on. A restart finds the store usable. -/
def step (l : Bool × ServerRuntime.Op) : Option Locked :=
  match l.2 with
  | .call _ _ => (L.server.step l.1 l.2).map (fun server => L.request server L.server.calls.length)
  | .resume i outcome =>
      if (L.server.calls[i]?).all (served · outcome) then
        (L.server.step l.1 l.2).map (fun server => L.request server i)
      else none
  | .commit i =>
      if L.mayCommit i then
        (L.server.step l.1 l.2).map (fun server => { server := server, lock := L.lock.erase i })
      else none
  | .restart degraded _ =>
      if degraded then none
      else (L.server.step l.1 l.2).map (fun server => { server := server, lock := [] })

/-- The updates on their way, in the order in which they will be made. -/
def pending : List RowUpdate := L.lock.filterMap (requested L.server.calls)

/-- The row becomes what the runtime has, once the updates on their way are made. -/
structure Mirrors (L : Locked) : Prop where
  nodup : L.lock.Nodup
  waiting : ∀ i, i ∈ L.lock ↔ (requested L.server.calls i).isSome
  logs : ∀ phase ∈ L.server.calls, phase.LogsAfter
  mirror : (RowUpdate.applyAll L.pending L.server.row).restored = L.server.memory

variable {L}

theorem requested_append (calls : List CallPhase) (phase : CallPhase) {j : Nat}
    (h : j ≠ calls.length) : requested (calls ++ [phase]) j = requested calls j := by
  unfold requested
  rcases Nat.lt_or_gt_of_ne h with hlt | hgt
  · rw [List.getElem?_append_left hlt]
  · rw [List.getElem?_eq_none (by simpa using Nat.succ_le_of_lt hgt), List.getElem?_eq_none hgt.le]

theorem requested_set_ne (calls : List CallPhase) (phase : CallPhase) {i j : Nat} (h : j ≠ i) :
    requested (calls.set i phase) j = requested calls j := by
  unfold requested
  rw [List.getElem?_set_ne h.symm]

theorem requested_set_self {calls : List CallPhase} {source : CallPhase} {i : Nat}
    (hi : calls[i]? = some source) (phase : CallPhase) :
    requested (calls.set i phase) i = phase.update? := by
  obtain ⟨hlt, -⟩ := List.getElem?_eq_some_iff.mp hi
  simp [requested, hlt]

/-- The updates on their way are those of the calls that wait. -/
theorem filterMap_requested_congr {calls calls' : List CallPhase} {lock : List Nat} {i : Nat}
    (hi : i ∉ lock) (h : ∀ j, j ≠ i → requested calls' j = requested calls j) :
    lock.filterMap (requested calls') = lock.filterMap (requested calls) :=
  List.filterMap_congr fun j hj => h j (ne_of_mem_of_not_mem hj hi)

/-- A call that is not waiting moves, and waits for the lock if it has a row to write. -/
theorem Mirrors.moved (hL : L.Mirrors) {T : ServerRuntime} {phase : CallPhase} {i : Nat}
    {calls : List CallPhase} (hfollows : Follows L.server (T, phase)) (hrow : T.row = L.server.row)
    (hi : i ∉ L.lock) (hself : requested calls i = phase.update?)
    (hother : ∀ j, j ≠ i → requested calls j = requested L.server.calls j)
    (hlogs : ∀ phase ∈ calls, phase.LogsAfter) :
    (L.request { T with calls := calls } i).Mirrors := by
  have hpending := filterMap_requested_congr hi hother
  have hmemory : T.memory = (phase.update?.getD {}).apply L.server.memory := hfollows.memory
  unfold request
  cases hupdate : phase.update? with
  | none =>
      rw [hupdate] at hself hmemory
      simp only [hself, Option.isSome_none, Bool.false_eq_true, if_false]
      refine ⟨hL.nodup, fun j => ?_, hlogs, ?_⟩
      · by_cases hj : j = i
        · subst hj
          simp [hi, hself]
        · rw [hL.waiting j, hother j hj]
      · show (RowUpdate.applyAll (L.lock.filterMap (requested calls)) T.row).restored = T.memory
        rw [hpending, hrow, hmemory]
        exact hL.mirror
  | some u =>
      rw [hupdate] at hself hmemory
      simp only [hself, Option.isSome_some, if_true]
      refine ⟨?_, fun j => ?_, hlogs, ?_⟩
      · exact List.nodup_append.mpr ⟨hL.nodup, List.nodup_singleton i, fun a ha b hb => by
          rw [List.mem_singleton.mp hb]
          exact ne_of_mem_of_not_mem ha hi⟩
      · by_cases hj : j = i
        · subst hj
          simp [hself]
        · rw [hother j hj, ← hL.waiting j]
          simp [hj]
      · -- the update comes after all that are on their way
        show (RowUpdate.applyAll ((L.lock ++ [i]).filterMap (requested calls)) T.row).restored =
          T.memory
        have hlast : [i].filterMap (requested calls) = [u] := by simp [hself]
        rw [List.filterMap_append, hpending, hlast, RowUpdate.applyAll_append, hrow, hmemory]
        show (u.apply _).restored = u.apply L.server.memory
        rw [RowUpdate.apply_restored, ← hL.mirror]
        rfl

/-- A power event is written: the row stays. -/
theorem Mirrors.logged (hL : L.Mirrors) {T : ServerRuntime} {i : Nat} {calls : List CallPhase}
    (hrow : T.row = L.server.row) (hmemory : T.memory = L.server.memory)
    (hother : ∀ j, requested calls j = requested L.server.calls j)
    (hlogs : ∀ phase ∈ calls, phase.LogsAfter) (hi : i ∉ L.lock) :
    Mirrors { server := { T with calls := calls }, lock := L.lock.erase i } := by
  rw [List.erase_of_not_mem hi]
  refine ⟨hL.nodup, fun j => ?_, hlogs, ?_⟩
  · rw [hL.waiting j, hother j]
  · show (RowUpdate.applyAll (L.lock.filterMap (requested calls)) T.row).restored = T.memory
    rw [funext hother, hrow, hmemory]
    exact hL.mirror

/-- The first in the line writes the row. -/
theorem Mirrors.written (hL : L.Mirrors) {T : ServerRuntime} {u : RowUpdate} {i : Nat}
    {calls : List CallPhase} (hfirst : L.lock.head? = some i)
    (hu : requested L.server.calls i = some u) (hrow : T.row = u.apply L.server.row)
    (hmemory : T.memory = L.server.memory) (hself : requested calls i = none)
    (hother : ∀ j, j ≠ i → requested calls j = requested L.server.calls j)
    (hlogs : ∀ phase ∈ calls, phase.LogsAfter) :
    Mirrors { server := { T with calls := calls }, lock := L.lock.erase i } := by
  obtain ⟨lock, hlock⟩ : ∃ lock, L.lock = i :: lock := by
    cases hl : L.lock with
    | nil => simp [hl] at hfirst
    | cons j lock =>
        rw [hl] at hfirst
        exact ⟨lock, by rw [Option.some.inj hfirst]⟩
  have hnodup := hL.nodup
  rw [hlock] at hnodup
  obtain ⟨hi, hrest⟩ := List.nodup_cons.mp hnodup
  rw [hlock, List.erase_cons_head]
  refine ⟨hrest, fun j => ?_, hlogs, ?_⟩
  · by_cases hj : j = i
    · subst hj
      simp [hi, hself]
    · rw [hother j hj, ← hL.waiting j, hlock]
      simp [hj]
  · show (RowUpdate.applyAll (lock.filterMap (requested calls)) T.row).restored = T.memory
    rw [filterMap_requested_congr hi hother, hrow, hmemory, ← hL.mirror]
    unfold pending
    rw [hlock, List.filterMap_cons_some hu, RowUpdate.applyAll_cons]

theorem Mirrors.started (config : ServerConfig) (row : ServerRow) (now : Time) :
    (started config row now).Mirrors where
  nodup := List.nodup_nil
  waiting := fun i => by simp [Locked.started, restart, ServerRuntime.init, requested]
  logs := fun phase hphase => absurd hphase List.not_mem_nil
  mirror := rfl

theorem Mirrors.getElem?_of_waiting (hL : L.Mirrors) {i : Nat} (h : i ∈ L.lock) :
    ∃ u rest tick, L.server.calls[i]? = some (.storing (.setServerRuntime u) rest false tick) := by
  obtain ⟨u, hu⟩ := Option.isSome_iff_exists.mp ((hL.waiting i).mp h)
  obtain ⟨phase, hphase, hupdate⟩ := Option.bind_eq_some_iff.mp hu
  unfold CallPhase.update? at hupdate
  split at hupdate
  · exact ⟨_, _, _, hphase⟩
  · exact absurd hupdate (by simp)

/-- The store makes a write. -/
theorem Mirrors.committed (hL : L.Mirrors) {active : Bool} {i : Nat} {server : ServerRuntime}
    (hmay : L.mayCommit i = true) (hserver : L.server.step active (.commit i) = some server) :
    Mirrors { server := server, lock := L.lock.erase i } := by
  simp only [ServerRuntime.step] at hserver
  split at hserver
  · rename_i call rest tick hcall
    obtain rfl := Option.some.inj hserver
    have hlogs : ∀ p ∈ L.server.calls.set i (.storing call rest true tick), p.LogsAfter := by
      intro p hp
      rcases List.mem_or_eq_of_mem_set hp with hold | rfl
      · exact hL.logs p hold
      · have hbefore : (CallPhase.storing call rest false tick).LogsAfter :=
          hL.logs _ (List.mem_of_getElem? hcall)
        exact hbefore
    have hself : requested (L.server.calls.set i (.storing call rest true tick)) i = none := by
      rw [requested_set_self hcall]
      cases call <;> rfl
    have hother : ∀ j, j ≠ i →
        requested (L.server.calls.set i (.storing call rest true tick)) j =
          requested L.server.calls j := fun j hj => requested_set_ne _ _ hj
    cases call with
    | setServerRuntime u =>
        have hu : requested L.server.calls i = some u := by
          rw [requested, hcall]
          rfl
        have hfirst : L.lock.head? = some i := by
          simpa [mayCommit, hu] using hmay
        exact hL.written hfirst hu rfl rfl hself hother hlogs
    | logPowerEvent event =>
        have hnone : requested L.server.calls i = none := by
          rw [requested, hcall]
          rfl
        have hidle : i ∉ L.lock := by
          rw [hL.waiting, hnone]
          exact Bool.false_ne_true
        refine hL.logged rfl rfl (fun j => ?_) hlogs hidle
        by_cases hj : j = i
        · rw [hj, hself, hnone]
        · exact hother j hj
  · exact absurd hserver (by simp)

/-- One step. -/
theorem Mirrors.step (hL : L.Mirrors) {l : Bool × ServerRuntime.Op} {L' : Locked}
    (h : L.step l = some L') : L'.Mirrors := by
  obtain ⟨active, op⟩ := l
  cases op with
  | call call now =>
      obtain ⟨server, hserver, rfl⟩ := Option.map_eq_some_iff.mp h
      obtain ⟨T, phase, hfollows, hrow, rfl⟩ := call_follows hserver
      have hnew : L.server.calls.length ∉ L.lock := by
        intro hmem
        obtain ⟨u, rest, tick, hcall⟩ := hL.getElem?_of_waiting hmem
        exact absurd hcall (by simp)
      refine hL.moved hfollows hrow hnew (by simp [requested]) ?_ ?_
      · exact fun j hj => requested_append _ _ hj
      · intro p hp
        rcases List.mem_append.mp hp with hold | hnew
        · exact hL.logs p hold
        · exact List.mem_singleton.mp hnew ▸ hfollows.logs
  | resume i outcome =>
      obtain ⟨hserved, hmap⟩ := Option.ite_none_right_eq_some.mp h
      obtain ⟨server, hserver, rfl⟩ := Option.map_eq_some_iff.mp hmap
      obtain ⟨source, T, phase, hsource, hfollows, hrow, rfl⟩ := resume_follows hserver hL.logs
      have hidle : i ∉ L.lock := by
        -- the await of a write returns when the write is made
        intro hmem
        obtain ⟨u, rest, tick, hcall⟩ := hL.getElem?_of_waiting hmem
        rw [hcall] at hserved
        exact absurd hserved (by simp [served])
      refine hL.moved hfollows hrow hidle (requested_set_self hsource phase) ?_ ?_
      · exact fun j hj => requested_set_ne _ _ hj
      · intro p hp
        rcases List.mem_or_eq_of_mem_set hp with hold | rfl
        · exact hL.logs p hold
        · exact hfollows.logs
  | commit i =>
      obtain ⟨hmay, hmap⟩ := Option.ite_none_right_eq_some.mp h
      obtain ⟨server, hserver, rfl⟩ := Option.map_eq_some_iff.mp hmap
      exact hL.committed hmay hserver
  | restart degraded now =>
      have husable : degraded = false := by
        cases degraded with
        | false => rfl
        | true => exact absurd h (by simp [Locked.step])
      subst husable
      obtain ⟨server, hserver, rfl⟩ := Option.map_eq_some_iff.mp h
      obtain ⟨-, hrestart⟩ := Option.ite_none_right_eq_some.mp hserver
      obtain rfl := Option.some.inj hrestart
      exact ⟨List.nodup_nil, fun i => by simp [restart, ServerRuntime.init, requested],
        fun phase hphase => absurd hphase List.not_mem_nil, rfl⟩

/-- A step of the server underneath. -/
theorem server_step {l : Bool × ServerRuntime.Op} {L' : Locked} (h : L.step l = some L') :
    L.server.step l.1 l.2 = some L'.server := by
  unfold Locked.step at h
  split at h
  · obtain ⟨server, hserver, rfl⟩ := Option.map_eq_some_iff.mp h
    exact hserver
  · obtain ⟨-, hmap⟩ := Option.ite_none_right_eq_some.mp h
    obtain ⟨server, hserver, rfl⟩ := Option.map_eq_some_iff.mp hmap
    exact hserver
  · obtain ⟨-, hmap⟩ := Option.ite_none_right_eq_some.mp h
    obtain ⟨server, hserver, rfl⟩ := Option.map_eq_some_iff.mp hmap
    exact hserver
  · split at h
    · exact absurd h (by simp)
    · obtain ⟨server, hserver, rfl⟩ := Option.map_eq_some_iff.mp h
      exact hserver

/-- A row that holds a power state goes on to hold one. -/
theorem powerState_ne_none_step {l : Bool × ServerRuntime.Op} {L' : Locked}
    (hrow : L.server.row.powerState ≠ none) (h : L.step l = some L') :
    L'.server.row.powerState ≠ none := by
  rcases ServerRuntime.step_cases (server_step h) with ⟨call, now, S₁, phase, -, -, hmove, hS'⟩ |
    ⟨i, outcome, source, S₁, phase, -, -, -, hmove, hS'⟩ | ⟨i, call, rest, tick, -, -, hS'⟩ |
    ⟨degraded, now, -, -, hS'⟩
  · rw [hS']
    exact hmove.frame.2.1 ▸ hrow
  · rw [hS']
    exact hmove.frame.2.1 ▸ hrow
  · rw [hS']
    cases call with
    | setServerRuntime u => exact RowUpdate.apply_powerState_ne_none u hrow
    | logPowerEvent event => exact hrow
  · rw [hS']
    exact hrow

/-! ### Whole runs -/

/-- Whenever no call is pending, the row holds what the runtime has, and a restart restores
the runtime. A power state that the row had from elsewhere and that is no `PowerState` stays
there until the runtime sees a change; it is read as `unknown`, which is what the runtime has
then. -/
theorem restored_of_run (config : ServerConfig) (row : ServerRow) (now : Time)
    {ls : List (Bool × ServerRuntime.Op)} {L : Locked}
    (h : Run (Steps Locked.step Any) (started config row now) ls L)
    (hended : ∀ phase ∈ L.server.calls, phase = .ended) :
    L.server.row.restored = L.server.memory ∧
      (row.powerState ≠ none → L.server.row = L.server.memory) ∧
      ∀ later, (L.server.restart false later).memory = L.server.memory := by
  have hL : L.Mirrors := h.invariant (fun _ _ _ hL hstep => hL.step hstep.1)
    (Mirrors.started config row now)
  have hpending : L.pending = [] := by
    refine List.filterMap_eq_nil_iff.mpr fun i hi => ?_
    obtain ⟨u, rest, tick, hcall⟩ := hL.getElem?_of_waiting hi
    exact absurd (hended _ (List.mem_of_getElem? hcall)) (by simp)
  have hmirror := hL.mirror
  rw [hpending, RowUpdate.applyAll_nil] at hmirror
  refine ⟨hmirror, fun hrow => ?_, fun later => ?_⟩
  · have hkept : L.server.row.powerState ≠ none :=
      h.invariant (I := fun L => L.server.row.powerState ≠ none)
        (fun _ _ _ hL hstep => powerState_ne_none_step hL hstep.1) hrow
    rw [← hmirror, ServerRow.restored_eq hkept]
  · rw [← hmirror]
    rfl

/-- A server that is never powered off by the clock. -/
def kept : ServerConfig where
  idleTimeout := 600
  shutdownEnabled := true
  adoptOnTraffic := true
  lastFireBefore := none
  powerOnCooldown := 60

/-- The switch is set while the backend powers the server on; the power-on resets it, and its
write comes after the one of the switch. -/
theorem restored_of_run_powerOn :
    ∃ L : Locked, L.server.owned = true ∧ L.server.row = L.server.memory ∧
      L.server.row.shutdownOverride = none := by
  have hview : (exec Locked.step (started kept {} 0)
      [(false, .call .powerOn 1), (false, .call (.setShutdownOverride false) 2),
        (false, .resume 0 { accepted := true, now := 3 }), (false, .commit 1),
        (false, .commit 0), (false, .resume 1 { now := 4 }), (false, .resume 0 { now := 5 }),
        (false, .commit 0), (false, .resume 0 { now := 6 })]).map
      (fun L => (L.server.calls, L.server.owned, L.server.row.shutdownOverride)) =
      some ([.ended, .ended], true, none) := by decide +kernel
  obtain ⟨L, hexec, hL⟩ := Option.map_eq_some_iff.mp hview
  obtain ⟨hcalls, hrest⟩ := Prod.mk.inj hL
  obtain ⟨howned, hoverride⟩ := Prod.mk.inj hrest
  have hended : ∀ phase ∈ L.server.calls, phase = .ended := by simp [hcalls]
  obtain ⟨-, hrow, -⟩ := restored_of_run kept {} 0 (run_any_of_exec hexec) hended
  exact ⟨L, howned, hrow (by simp), hoverride⟩

end Locked

end Relay
