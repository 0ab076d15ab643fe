import Relay.Endpoint.Manager

/-!
# Relay.Endpoint.Poll

**A poll that nothing interrupts.** `Desk.polled` is the poll of one machine as a whole: its
stamp, the turn of each session, the merges, and the end. It is what the coroutine of
`Relay.Endpoint.Manager` computes when no other step comes between its awaits: from the start of
the poll (`pollMachines_inPoll`) and over each await (`resume_inPoll`) the manager is in the
poll, until it goes on to the next machine with the desk `polled` gives.
-/

namespace Relay

/-- The answers of a directory, and the reading at their merge. -/
structure DirectoryReport where
  sessions : List SessionRef
  data : Option StatusMap
  pending : Option PendingMap
  reported : Time

/-- The session whose lookup a manager awaits. -/
def ManagerPhase.lookedUp? : ManagerPhase → Option SessionRef
  | .lookingUp _ _ _ s _ => some s
  | _ => none

namespace Desk

variable (D : Desk)

/-- The desk as a poll starts. -/
def stamped (poll : Poll) : Desk :=
  D.setPoller poll.machine ((D.pollerOf poll.machine).stamp poll.machine.base poll.startedAt)

/-- The turn of a session: it is looked up, unless its directory is cached. -/
def turn (m : Machine) (lookups : SessionRef → HttpAnswer SessionInfo) (D : Desk)
    (s : SessionRef) : Desk :=
  match (D.pollerOf m).sessionDir.get? (m.base, (D.queue.objs s).sessionId) with
  | some _ => D.share m s
  | none => (D.lookedUp m .empty s (fetchSessionInfo (lookups s))).1

/-- The desk after the turns of the sessions. -/
def turns (m : Machine) (lookups : SessionRef → HttpAnswer SessionInfo)
    (sessions : List SessionRef) : Desk :=
  sessions.foldl (turn m lookups) D

/-- The desk after the merges of a poll. -/
def reported (reports : List DirectoryReport) : Desk :=
  { D with
    queue := reports.foldl (fun q r => q.mergeReports r.sessions r.data r.pending r.reported)
      D.queue }

/-- The desk after the lookups of a poll. -/
def shared (poll : Poll) (lookups : SessionRef → HttpAnswer SessionInfo) : Desk :=
  (D.stamped poll).turns poll.machine lookups poll.machine.sessions

/-- The desk after a poll. -/
def polled (poll : Poll) (lookups : SessionRef → HttpAnswer SessionInfo)
    (reports : List DirectoryReport) : Desk :=
  ((D.shared poll lookups).reported reports).endPoll poll

/-- The manager is in the poll, which started at `D`. -/
def InPoll (pass : Pass) (poll : Poll) (lookups : SessionRef → HttpAnswer SessionInfo) :
    Desk × ManagerPhase → Prop
  | (D', .lookingUp pass' poll' _ s rest) =>
      pass' = pass ∧ poll' = poll ∧
        (D'.pollerOf poll.machine).sessionDir.get?
          (poll.machine.base, (D'.queue.objs s).sessionId) = none ∧
        D'.turns poll.machine lookups (s :: rest) = D.shared poll lookups
  | (D', .fetchingStatuses pass' poll' _ _ _) | (D', .fetchingPending pass' poll' _ _ _ _ _) =>
      pass' = pass ∧ poll' = poll ∧ ∃ reports, D' = (D.shared poll lookups).reported reports
  | (_, .asleep) | (_, .surrendering _) => False

variable {D} {now : Time} {answer : Answer} {tracked : Machine → List WatchedSession} {m : Machine}
  {lookups : SessionRef → HttpAnswer SessionInfo} {pass : Pass} {poll : Poll} {s : SessionRef}

/-- Over cached sessions the turns are the loop of the lookups, and the others are left. -/
theorem turns_lookUps (m : Machine) (lookups : SessionRef → HttpAnswer SessionInfo) (D : Desk)
    (byDir : Directories) (sessions : List SessionRef) :
    (lookUps m D byDir sessions).1.turns m lookups (lookUps m D byDir sessions).2.2 =
      D.turns m lookups sessions := by
  induction sessions generalizing D byDir with
  | nil => rfl
  | cons s rest ih =>
      unfold lookUps
      split
      · rfl
      · rename_i directory hcached
        have hturn : turn m lookups D s = D.share m s := by
          unfold turn
          rw [hcached]
        rw [ih]
        unfold turns
        rw [List.foldl_cons, hturn]

/-- What is left begins with a session that is not cached. -/
theorem uncached_lookUps (m : Machine) (D : Desk) (byDir : Directories)
    (sessions : List SessionRef) {rest : List SessionRef}
    (h : (lookUps m D byDir sessions).2.2 = s :: rest) :
    ((lookUps m D byDir sessions).1.pollerOf m).sessionDir.get?
      (m.base, ((lookUps m D byDir sessions).1.queue.objs s).sessionId) = none := by
  induction sessions generalizing D byDir with
  | nil => exact absurd h (by simp [lookUps])
  | cons s' rest' ih =>
      unfold lookUps at h ⊢
      split at h
      · rename_i huncached
        obtain ⟨rfl, rfl⟩ := List.cons.inj h
        exact huncached
      · exact ih _ _ h

/-- After its lookups the manager is at an await of the poll, or the poll has no directory. -/
theorem awaited_inPoll {D₁ : Desk} {sessions : List SessionRef} (pass : Pass) (byDir : Directories)
    (h : D₁.turns poll.machine lookups sessions = D.shared poll lookups) :
    (∃ phase, awaited pass poll (lookUps poll.machine D₁ byDir sessions).2.1
        (lookUps poll.machine D₁ byDir sessions).2.2 = some phase ∧
        D.InPoll pass poll lookups ((lookUps poll.machine D₁ byDir sessions).1, phase)) ∨
      (awaited pass poll (lookUps poll.machine D₁ byDir sessions).2.1
        (lookUps poll.machine D₁ byDir sessions).2.2 = none ∧
        (lookUps poll.machine D₁ byDir sessions).1 = D.shared poll lookups) := by
  have hturns := (turns_lookUps poll.machine lookups D₁ byDir sessions).trans h
  have huncached : ∀ s rest, (lookUps poll.machine D₁ byDir sessions).2.2 = s :: rest →
      ((lookUps poll.machine D₁ byDir sessions).1.pollerOf poll.machine).sessionDir.get?
        (poll.machine.base, ((lookUps poll.machine D₁ byDir sessions).1.queue.objs s).sessionId) =
          none :=
    fun s rest hrest => uncached_lookUps poll.machine D₁ byDir sessions hrest
  generalize lookUps poll.machine D₁ byDir sessions = looked at *
  obtain ⟨D₂, byDir₂, remaining⟩ := looked
  cases remaining with
  | cons s rest => exact Or.inl ⟨_, rfl, rfl, rfl, huncached s rest rfl, hturns⟩
  | nil =>
      -- all sessions have had their turn
      have hend : D₂ = D.shared poll lookups := hturns
      unfold awaited
      dsimp only
      split
      · exact Or.inr ⟨rfl, hend⟩
      · exact Or.inl ⟨_, rfl, rfl, rfl, [], hend⟩

/-- The poll of a machine that is due. -/
theorem pollMachines_inPoll (rest : List Machine)
    (hpoll : poll = ⟨m, answer.stampAt, tracked m⟩) (hdue : (D.pollerOf m).due m.base now = true) :
    D.InPoll ⟨now, rest⟩ poll lookups (pollMachines now answer tracked D (m :: rest)) ∨
      pollMachines now answer tracked D (m :: rest) =
        pollMachines now answer tracked (D.polled poll lookups []) rest := by
  have hstart : (D.stamped poll).turns poll.machine lookups poll.machine.sessions =
      D.shared poll lookups := rfl
  rcases awaited_inPoll ⟨now, rest⟩ .empty hstart with ⟨phase, hphase, hin⟩ | ⟨hnone, hshared⟩
  · left
    unfold stamped at hphase hin
    subst hpoll
    unfold pollMachines
    rw [if_pos hdue]
    dsimp only
    rw [hphase]
    exact hin
  · right
    unfold stamped at hnone hshared
    subst hpoll
    conv_lhs => unfold pollMachines
    rw [if_pos hdue]
    dsimp only
    rw [hnone, hshared]
    rfl

/-- A manager in a poll goes on with it, or ends it and goes on to the next machine. -/
theorem resume_inPoll {state result : Desk × ManagerPhase} (h : D.InPoll pass poll lookups state)
    (hlookup : ∀ s, state.2.lookedUp? = some s → answer.info = lookups s)
    (hresume : state.1.resume answer tracked state.2 = some result) :
    D.InPoll pass poll lookups result ∨ ∃ reports, result =
      pollMachines pass.now answer tracked (D.polled poll lookups reports) pass.machines := by
  obtain ⟨D', phase⟩ := state
  cases phase with
  | lookingUp pass' poll' byDir s rest =>
      obtain ⟨rfl, rfl, huncached, hturns⟩ := h
      obtain rfl := Option.some.inj hresume
      rw [hlookup s rfl]
      -- the turn of a session does not depend on the directories
      have hturn : (D'.lookedUp poll'.machine byDir s (fetchSessionInfo (lookups s))).1 =
          turn poll'.machine lookups D' s := by
        unfold turn
        rw [huncached]
        cases fetchSessionInfo (lookups s) <;> rfl
      have hrest : (D'.lookedUp poll'.machine byDir s (fetchSessionInfo (lookups s))).1.turns
          poll'.machine lookups rest = D.shared poll' lookups := by
        rw [hturn]
        exact hturns
      dsimp only
      rcases awaited_inPoll pass'
        (D'.lookedUp poll'.machine byDir s (fetchSessionInfo (lookups s))).2 hrest with
        ⟨phase, hphase, hin⟩ | ⟨hnone, hshared⟩
      · rw [hphase]
        exact Or.inl hin
      · rw [hnone, hshared]
        exact Or.inr ⟨[], rfl⟩
  | fetchingStatuses pass' poll' directory sessions rest =>
      obtain rfl := Option.some.inj hresume
      exact Or.inl h
  | fetchingPending pass' poll' directory sessions rest data receivedAt =>
      obtain ⟨rfl, rfl, reports, rfl⟩ := h
      obtain rfl := Option.some.inj hresume
      dsimp only
      -- the merge is one more report
      generalize fetchPending _ answer.pending = pending
      have hmerge : (⟨((D.shared poll' lookups).reported reports).queue.mergeReports sessions data
          pending answer.now, (D.shared poll' lookups).pollers,
          (D.shared poll' lookups).finished⟩ : Desk) =
          (D.shared poll' lookups).reported
            (reports ++ [⟨sessions, data, pending, answer.now⟩]) := by
        simp [reported]
      cases rest with
      | nil => exact Or.inr ⟨_, congrArg (fun D => pollMachines pass'.now answer tracked
          (D.endPoll poll') pass'.machines) hmerge⟩
      | cons next rest => exact Or.inl ⟨rfl, rfl, _, hmerge⟩
  | asleep => exact absurd h not_false
  | surrendering pass' => exact absurd h not_false

end Desk

end Relay
