import Relay.Endpoint.Reports

/-!
# Relay.Endpoint.Refresh

**Which sessions a poll refreshes.** The stamps that say when a machine was polled are shared by
all endpoints, but a poll refreshes the sessions of one endpoint, those its pass has found in the
table. `Polling` follows the sessions of a poll through its awaits: each of them is still to come
or has a report that is no older than the stamp. When the answers are well formed, a poll that
ends has therefore refreshed its sessions; it has refreshed all sessions of the machine when they
were its own (`Poll.IsWhole`).
-/

namespace Relay

open Runs

/-! ### Well-formed answers -/

/-- Every entry of the map says what its session does. -/
def StatusMap.informs (map : StatusMap) : Bool :=
  map.values.all (fun entry => entry.status?.isSome)

/-- What a manager awaits is answered, and the answer is well formed. The pending lists may be
missing: a map that informs tells enough. -/
def ManagerPhase.WellAnswered (answer : Answer) : ManagerPhase → Prop
  | .lookingUp _ _ _ _ _ => (fetchSessionInfo answer.info).isSome = true
  | .fetchingStatuses _ _ _ _ _ =>
      (fetchStatuses answer.statuses).any StatusMap.informs = true
  | .asleep | .fetchingPending _ _ _ _ _ _ _ | .surrendering _ => True

instance (answer : Answer) (phase : ManagerPhase) : Decidable (phase.WellAnswered answer) :=
  match phase with
  | .lookingUp _ _ _ _ _ | .fetchingStatuses _ _ _ _ _ => inferInstanceAs (Decidable (_ = true))
  | .asleep | .fetchingPending _ _ _ _ _ _ _ | .surrendering _ => inferInstanceAs (Decidable True)

/-- A map that informs gives a report of every session. -/
theorem reportOf_isSome {map : StatusMap} (h : map.informs = true) (pending : Option PendingMap)
    (sessionId : String) : (reportOf (some map) pending sessionId).isSome = true := by
  unfold reportOf
  cases pending.bind (fun p => p.get? sessionId) with
  | some reason => rfl
  | none =>
      dsimp only
      cases hentry : map.get? sessionId with
      | none => rfl
      | some entry =>
          have hinforms : entry.status?.isSome = true :=
            List.all_eq_true.mp h entry (OrdDict.mem_values_iff.mpr ⟨sessionId, hentry⟩)
          cases entry with
          | other => rfl
          | object type attempt => simpa [StatusEntry.status?] using hinforms

/-! ### The sessions of a poll -/

/-- Every session of the poll has a report that is no older than its stamp, which is not from
after `t`. -/
structure Poll.Refreshed (p : Poll) (t : Time) (q : EndpointQueue) : Prop where
  started : p.startedAt ≤ t
  exist : ∀ s ∈ p.machine.sessions, s < q.objs.next
  refreshed : ∀ s ∈ p.machine.sessions, p.startedAt ≤ (q.objs s).clientStatusAt

/-- The manager `i` polls all sessions of the machine that are tracked as the poll starts. -/
def Poll.IsWhole (p : Poll) (i : Nat) : Prop := ∀ w ∈ p.watched, w.1 = i ∧ w.2 ∈ p.machine.sessions

instance (p : Poll) (i : Nat) : Decidable (p.IsWhole i) :=
  inferInstanceAs (Decidable (∀ w ∈ p.watched, _ ∧ _))

/-- The poll has not come to the session. -/
def ManagerPhase.Awaits (s : SessionRef) : ManagerPhase → Prop
  | .lookingUp _ _ byDir s' rest =>
      s ∈ s' :: rest ∨ ∃ directory, s ∈ (byDir.get? directory).getD []
  | .fetchingStatuses _ _ _ sessions rest | .fetchingPending _ _ _ sessions rest _ _ =>
      s ∈ sessions ∨ ∃ p ∈ rest, s ∈ p.2
  | .asleep | .surrendering _ => False

/-- A manager in the midst of its polls: the sessions of its poll are still to come, or have been
refreshed. -/
structure Polling (t : Time) (q : EndpointQueue) (phase : ManagerPhase) : Prop where
  exist : ∀ pass, phase.pass? = some pass → ∀ m ∈ pass.machines, ∀ s ∈ m.sessions, s < q.objs.next
  started : ∀ poll, phase.poll? = some poll → poll.startedAt ≤ t
  polled : ∀ poll, phase.poll? = some poll → ∀ s ∈ poll.machine.sessions, s < q.objs.next
  refreshed : ∀ poll, phase.poll? = some poll → ∀ s ∈ poll.machine.sessions,
    phase.Awaits s ∨ poll.startedAt ≤ (q.objs s).clientStatusAt
  answered : ∀ pass poll directory sessions rest data receivedAt,
    phase = .fetchingPending pass poll directory sessions rest data receivedAt →
    data.any StatusMap.informs = true

namespace EndpointQueue

variable {t t' : Time} {q q' : EndpointQueue} {s : SessionRef} {p : Poll}

theorem Carried.stamp_le (h : Carried t' q q') (hs : s < q.objs.next)
    (hle : t ≤ (q.objs s).clientStatusAt) : t ≤ (q'.objs s).clientStatusAt := by
  rw [(h.kept s hs).clientStatusAt]
  exact hle

/-- A merge makes no report older. -/
theorem mergeReports_stamp_le {data : Option StatusMap} {pending : Option PendingMap}
    {reported : Time} {sessions : List SessionRef} (hreported : t ≤ reported)
    (hle : t ≤ (q.objs s).clientStatusAt) :
    t ≤ ((q.mergeReports sessions data pending reported).objs s).clientStatusAt := by
  rw [mergeReports_objs]
  split
  · rcases Option.eq_none_or_eq_some (reportOf data pending (q.objs s).sessionId) with hnone |
      ⟨r, hsome⟩
    · rw [Session.report_of_none hnone]
      exact hle
    · obtain ⟨status, detail⟩ := r
      rw [Session.report_of_some hsome]
      exact hreported
  · exact hle

/-- A merge of a map that informs refreshes the sessions of the directory. -/
theorem mergeReports_stamp_eq {map : StatusMap} {pending : Option PendingMap} {reported : Time}
    {sessions : List SessionRef} (hinforms : map.informs = true) (hs : s ∈ sessions) :
    ((q.mergeReports sessions (some map) pending reported).objs s).clientStatusAt = reported := by
  obtain ⟨r, hsome⟩ := Option.isSome_iff_exists.mp
    (reportOf_isSome hinforms pending (q.objs s).sessionId)
  obtain ⟨status, detail⟩ := r
  rw [mergeReports_objs, if_pos hs, Session.report_of_some hsome]

end EndpointQueue

open EndpointQueue (Carried)

theorem Poll.Refreshed.mono {p : Poll} {t t' : Time} {q : EndpointQueue} (h : p.Refreshed t q)
    (hle : t ≤ t') : p.Refreshed t' q :=
  ⟨h.started.trans hle, h.exist, h.refreshed⟩

theorem Poll.Refreshed.carried {p : Poll} {t t' : Time} {q q' : EndpointQueue}
    (h : p.Refreshed t q) (hq : Carried t' q q') : p.Refreshed t q' where
  started := h.started
  exist := fun s hs => Nat.lt_of_lt_of_le (h.exist s hs) hq.next_le
  refreshed := fun s hs => hq.stamp_le (h.exist s hs) (h.refreshed s hs)

theorem Poll.Refreshed.merge {p : Poll} {t : Time} {q : EndpointQueue} (h : p.Refreshed t q)
    {sessions : List SessionRef} {data : Option StatusMap} {pending : Option PendingMap}
    {reported : Time} (hle : t ≤ reported) :
    p.Refreshed t (q.mergeReports sessions data pending reported) where
  started := h.started
  exist := fun s hs => by
    rw [EndpointQueue.mergeReports_next]
    exact h.exist s hs
  refreshed := fun s hs =>
    EndpointQueue.mergeReports_stamp_le (h.started.trans hle) (h.refreshed s hs)

namespace Polling

variable {t t' : Time} {q q' : EndpointQueue} {phase : ManagerPhase}

theorem mono (h : Polling t q phase) (hle : t ≤ t') : Polling t' q phase :=
  ⟨h.exist, fun poll hpoll => (h.started poll hpoll).trans hle, h.polled, h.refreshed, h.answered⟩

theorem carried (h : Polling t q phase) (hq : Carried t' q q') : Polling t q' phase where
  exist := fun pass hpass m hm s hs =>
    Nat.lt_of_lt_of_le (h.exist pass hpass m hm s hs) hq.next_le
  started := h.started
  polled := fun poll hpoll s hs => Nat.lt_of_lt_of_le (h.polled poll hpoll s hs) hq.next_le
  refreshed := fun poll hpoll s hs =>
    (h.refreshed poll hpoll s hs).imp_right (hq.stamp_le (h.polled poll hpoll s hs))
  answered := h.answered

/-- A manager at an await of a poll. -/
theorem of_poll {pass : Pass} {poll : Poll} (hpass : phase.pass? = some pass)
    (hpoll : phase.poll? = some poll)
    (hexist : ∀ m ∈ pass.machines, ∀ s ∈ m.sessions, s < q.objs.next)
    (hstarted : poll.startedAt ≤ t) (hpolled : ∀ s ∈ poll.machine.sessions, s < q.objs.next)
    (hrefreshed : ∀ s ∈ poll.machine.sessions,
      phase.Awaits s ∨ poll.startedAt ≤ (q.objs s).clientStatusAt)
    (hanswered : ∀ pass poll directory sessions rest data receivedAt,
      phase = .fetchingPending pass poll directory sessions rest data receivedAt →
      data.any StatusMap.informs = true) : Polling t q phase where
  exist := fun pass' hpass' => by
    obtain rfl := Option.some.inj (hpass.symm.trans hpass')
    exact hexist
  started := fun poll' hpoll' => by
    obtain rfl := Option.some.inj (hpoll.symm.trans hpoll')
    exact hstarted
  polled := fun poll' hpoll' => by
    obtain rfl := Option.some.inj (hpoll.symm.trans hpoll')
    exact hpolled
  refreshed := fun poll' hpoll' => by
    obtain rfl := Option.some.inj (hpoll.symm.trans hpoll')
    exact hrefreshed
  answered := hanswered

/-- A manager that is in no poll. -/
theorem of_idle (t : Time) (q : EndpointQueue) (hpoll : phase.poll? = none)
    (hpass : ∀ pass, phase.pass? = some pass → pass.machines = []) : Polling t q phase where
  exist := fun pass hphase m hm => by
    rw [hpass pass hphase] at hm
    exact absurd hm List.not_mem_nil
  started := fun poll hphase => absurd (hpoll.symm.trans hphase) (by simp)
  polled := fun poll hphase => absurd (hpoll.symm.trans hphase) (by simp)
  refreshed := fun poll hphase => absurd (hpoll.symm.trans hphase) (by simp)
  answered := fun _ _ _ _ _ _ _ hphase => by
    subst hphase
    exact absurd hpoll (by simp [ManagerPhase.poll?])

end Polling

namespace Desk

variable {D : Desk} {answer : Answer} {tracked : Machine → List WatchedSession} {t : Time}

/-! ### The segments of a pass -/

theorem lookUps_finished (m : Machine) (D : Desk) (byDir : Directories)
    (sessions : List SessionRef) : (lookUps m D byDir sessions).1.finished = D.finished := by
  induction sessions generalizing D byDir with
  | nil => rfl
  | cons s rest ih =>
      unfold lookUps
      split
      · rfl
      · exact ih (D.share m s) _

theorem lookUps_carried (m : Machine) (D : Desk) (byDir : Directories)
    (sessions : List SessionRef) : Carried t D.queue (lookUps m D byDir sessions).1.queue :=
  lookUps_queue (fun _ s key hq => hq.setSharedSpotKey s key) m byDir sessions (.refl t D.queue)

/-- The lookups lose no session: it has been filed, or remains. -/
theorem lookUps_keeps (m : Machine) (D : Desk) (byDir : Directories) (sessions : List SessionRef)
    {s : SessionRef} (h : s ∈ sessions ∨ ∃ directory, s ∈ (byDir.get? directory).getD []) :
    s ∈ (lookUps m D byDir sessions).2.2 ∨
      ∃ directory, s ∈ ((lookUps m D byDir sessions).2.1.get? directory).getD [] := by
  induction sessions generalizing D byDir with
  | nil => exact h
  | cons s' rest ih =>
      unfold lookUps
      split
      · exact h
      · rename_i directory hdirectory
        refine ih _ _ ?_
        rcases h with hmem | ⟨directory', hfiled⟩
        · rcases List.mem_cons.mp hmem with rfl | hrest
          · exact Or.inr ⟨directory, OrdDict.mem_getD_insert_snoc.mpr (Or.inl ⟨rfl, rfl⟩)⟩
          · exact Or.inl hrest
        · exact Or.inr ⟨directory', OrdDict.mem_getD_insert_snoc.mpr (Or.inr hfiled)⟩

/-- The await a poll comes to after its lookups. -/
theorem awaited_polling {q : EndpointQueue} {pass : Pass} {poll : Poll} {byDir : Directories}
    {remaining : List SessionRef} {phase : ManagerPhase}
    (h : awaited pass poll byDir remaining = some phase)
    (hexist : ∀ m ∈ pass.machines, ∀ s ∈ m.sessions, s < q.objs.next)
    (hstarted : poll.startedAt ≤ t)
    (hpolled : ∀ s ∈ poll.machine.sessions, s < q.objs.next)
    (hfiled : ∀ s ∈ poll.machine.sessions,
      (s ∈ remaining ∨ ∃ directory, s ∈ (byDir.get? directory).getD []) ∨
        poll.startedAt ≤ (q.objs s).clientStatusAt) : Polling t q phase := by
  unfold awaited at h
  split at h
  · obtain rfl := Option.some.inj h
    exact .of_poll rfl rfl hexist hstarted hpolled hfiled
      fun _ _ _ _ _ _ _ hphase => absurd hphase (by simp)
  · split at h
    · exact absurd h (by simp)
    · rename_i directory sessions rest hentries
      obtain rfl := Option.some.inj h
      refine .of_poll rfl rfl hexist hstarted hpolled (fun s hs => ?_)
        fun _ _ _ _ _ _ _ hphase => absurd hphase (by simp)
      refine (hfiled s hs).imp_left fun hfiled => ?_
      obtain ⟨p, hp, hmem⟩ := OrdDict.exists_mem_getD_iff.mp
        (hfiled.resolve_left List.not_mem_nil)
      rw [hentries] at hp
      rcases List.mem_cons.mp hp with rfl | hp
      · exact Or.inl hmem
      · exact Or.inr ⟨p, hp, hmem⟩

/-- A poll that comes to no await has no session. -/
theorem awaited_eq_none {pass : Pass} {poll : Poll} {byDir : Directories}
    {remaining : List SessionRef} (h : awaited pass poll byDir remaining = none) {s : SessionRef} :
    ¬ (s ∈ remaining ∨ ∃ directory, s ∈ (byDir.get? directory).getD []) := by
  unfold awaited at h
  split at h
  · exact absurd h (by simp)
  · split at h
    · rename_i hentries
      rw [OrdDict.exists_mem_getD_iff, hentries]
      simp
    · exact absurd h (by simp)

/-- What a segment leaves: a manager in the midst of its polls, and the polls that have ended
have refreshed their sessions. -/
structure Refreshes (t : Time) (result : Desk × ManagerPhase) : Prop where
  polling : Polling t result.1.queue result.2
  finished : ∀ p ∈ result.1.finished, p.Refreshed t result.1.queue

theorem pollMachines_refreshes {now : Time} (machines : List Machine)
    (hexist : ∀ m ∈ machines, ∀ s ∈ m.sessions, s < D.queue.objs.next)
    (hfinished : ∀ p ∈ D.finished, p.Refreshed answer.stampAt D.queue) :
    Refreshes answer.stampAt (pollMachines now answer tracked D machines) := by
  induction machines generalizing D with
  | nil =>
      refine ⟨.of_idle _ _ rfl fun pass hpass => ?_, hfinished⟩
      obtain rfl := Option.some.inj hpass
      rfl
  | cons m rest ih =>
      have hrest : ∀ m ∈ rest, ∀ s ∈ m.sessions, s < D.queue.objs.next :=
        fun m' hm' => hexist m' (List.mem_cons_of_mem _ hm')
      unfold pollMachines
      split
      · dsimp only
        set D' := D.setPoller m ((D.pollerOf m).stamp m.base answer.stampAt) with hD'
        have hcarried : Carried 0 D.queue (lookUps m D' .empty m.sessions).1.queue :=
          lookUps_carried m D' .empty m.sessions
        have hkept : ∀ s, s < D.queue.objs.next →
            s < (lookUps m D' .empty m.sessions).1.queue.objs.next :=
          fun s hs => Nat.lt_of_lt_of_le hs hcarried.next_le
        have hold : ∀ p ∈ (lookUps m D' .empty m.sessions).1.finished,
            p.Refreshed answer.stampAt (lookUps m D' .empty m.sessions).1.queue := by
          intro p hp
          rw [lookUps_finished] at hp
          exact (hfinished p hp).carried hcarried
        have hfiled : ∀ s ∈ m.sessions, _ := fun s hs =>
          lookUps_keeps m D' .empty m.sessions (Or.inl hs)
        have hmine : ∀ s ∈ m.sessions,
            s < (lookUps m D' .empty m.sessions).1.queue.objs.next :=
          fun s hs => hkept s (hexist m List.mem_cons_self s hs)
        split
        · rename_i phase hphase
          exact ⟨awaited_polling hphase (fun m' hm' s hs => hkept s (hrest m' hm' s hs)) le_rfl
            hmine fun s hs => Or.inl (hfiled s hs), hold⟩
        · rename_i hphase
          refine ih (fun m' hm' s hs => hkept s (hrest m' hm' s hs)) fun p hp => ?_
          rcases List.mem_append.mp hp with hp | hp
          · exact hold p hp
          · rw [List.mem_singleton.mp hp]
            exact ⟨le_rfl, hmine, fun s hs => absurd (hfiled s hs) (awaited_eq_none hphase)⟩
      · exact ih hrest hfinished

/-- The end of a poll whose sessions have all been refreshed. -/
theorem endPoll_refreshed {poll : Poll} (hpoll : poll.Refreshed t D.queue)
    (hfinished : ∀ p ∈ D.finished, p.Refreshed t D.queue) :
    ∀ p ∈ (D.endPoll poll).finished, p.Refreshed t (D.endPoll poll).queue := by
  intro p hp
  rcases List.mem_append.mp hp with hp | hp
  · exact hfinished p hp
  · rw [List.mem_singleton.mp hp]
    exact hpoll

/-- The session that was looked up is filed, and no other one is lost. -/
theorem lookedUp_keeps {m : Machine} {byDir : Directories} {s s' : SessionRef}
    {rest : List SessionRef} (info : String × Option String)
    (h : s' ∈ s :: rest ∨ ∃ directory, s' ∈ (byDir.get? directory).getD []) :
    s' ∈ rest ∨
      ∃ directory, s' ∈ ((D.lookedUp m byDir s (some info)).2.get? directory).getD [] := by
  change s' ∈ rest ∨ ∃ directory, s' ∈ ((addTo byDir info.1 s).get? directory).getD []
  rcases h with hmem | ⟨directory, hdirectory⟩
  · rcases List.mem_cons.mp hmem with rfl | hrest
    · exact Or.inr ⟨info.1, OrdDict.mem_getD_insert_snoc.mpr (Or.inl ⟨rfl, rfl⟩)⟩
    · exact Or.inl hrest
  · exact Or.inr ⟨directory, OrdDict.mem_getD_insert_snoc.mpr (Or.inr hdirectory)⟩

/-- A manager whose lookup is answered. -/
theorem lookingUp_refreshes {pass : Pass} {poll : Poll} {byDir : Directories} {s : SessionRef}
    {rest : List SessionRef} {result : Desk × ManagerPhase}
    (hpolling : Polling t D.queue (.lookingUp pass poll byDir s rest))
    (hanswered : (fetchSessionInfo answer.info).isSome = true)
    (hnow : t ≤ answer.now) (hstamp : answer.now ≤ answer.stampAt)
    (hfinished : ∀ p ∈ D.finished, p.Refreshed t D.queue)
    (hresume : D.resume answer tracked (.lookingUp pass poll byDir s rest) = some result) :
    Refreshes answer.stampAt result := by
  obtain rfl := Option.some.inj hresume
  obtain ⟨info, hinfo⟩ := Option.isSome_iff_exists.mp hanswered
  rw [hinfo]
  have hfiledNow : ∀ s', s' ∈ s :: rest ∨ (∃ directory, s' ∈ (byDir.get? directory).getD []) →
      s' ∈ rest ∨ ∃ directory,
        s' ∈ ((D.lookedUp poll.machine byDir s (some info)).2.get? directory).getD [] :=
    fun _ h => lookedUp_keeps info h
  have hfinishedNow : (D.lookedUp poll.machine byDir s (some info)).1.finished = D.finished := rfl
  have hcarriedNow : Carried t D.queue (D.lookedUp poll.machine byDir s (some info)).1.queue :=
    lookedUp_queue (fun _ s key hq => hq.setSharedSpotKey s key) (.refl t D.queue) _ _ _ _
  generalize D.lookedUp poll.machine byDir s (some info) = found at *
  have hcarried := hcarriedNow.trans (lookUps_carried poll.machine found.1 found.2 rest)
  have hkept : ∀ s, s < D.queue.objs.next →
      s < (lookUps poll.machine found.1 found.2 rest).1.queue.objs.next :=
    fun s hs => Nat.lt_of_lt_of_le hs hcarried.next_le
  have hfiled : ∀ s' ∈ poll.machine.sessions,
      (s' ∈ (lookUps poll.machine found.1 found.2 rest).2.2 ∨ ∃ directory,
        s' ∈ ((lookUps poll.machine found.1 found.2 rest).2.1.get? directory).getD []) ∨
      poll.startedAt ≤
        ((lookUps poll.machine found.1 found.2 rest).1.queue.objs s').clientStatusAt := by
    intro s' hs'
    rcases hpolling.refreshed poll rfl s' hs' with hawaits | hdone
    · exact Or.inl (lookUps_keeps poll.machine found.1 found.2 rest (hfiledNow s' hawaits))
    · exact Or.inr (hcarried.stamp_le (hpolling.polled poll rfl s' hs') hdone)
  have hfinishedLater : ∀ p ∈ (lookUps poll.machine found.1 found.2 rest).1.finished,
      p.Refreshed answer.stampAt (lookUps poll.machine found.1 found.2 rest).1.queue := by
    intro p hp
    rw [lookUps_finished, hfinishedNow] at hp
    exact ((hfinished p hp).carried hcarried).mono (hnow.trans hstamp)
  have hexist : ∀ m ∈ pass.machines, ∀ s ∈ m.sessions,
      s < (lookUps poll.machine found.1 found.2 rest).1.queue.objs.next :=
    fun m hm s hs => hkept s (hpolling.exist pass rfl m hm s hs)
  have hstarted := (hpolling.started poll rfl).trans (hnow.trans hstamp)
  have hpolled := fun s hs => hkept s (hpolling.polled poll rfl s hs)
  split
  · rename_i phase hphase
    exact ⟨awaited_polling hphase hexist hstarted hpolled hfiled, hfinishedLater⟩
  · rename_i hphase
    refine pollMachines_refreshes pass.machines hexist
      (endPoll_refreshed ⟨hstarted, hpolled, fun s hs => ?_⟩ hfinishedLater)
    exact (hfiled s hs).resolve_left (awaited_eq_none hphase)

/-- A manager that merges the answers of a directory. -/
theorem fetchingPending_refreshes {pass : Pass} {poll : Poll} {directory : String}
    {sessions : List SessionRef} {rest : List (String × List SessionRef)}
    {data : Option StatusMap} {receivedAt : Time} {result : Desk × ManagerPhase}
    (hpolling : Polling t D.queue
      (.fetchingPending pass poll directory sessions rest data receivedAt))
    (hnow : t ≤ answer.now) (hstamp : answer.now ≤ answer.stampAt)
    (hfinished : ∀ p ∈ D.finished, p.Refreshed t D.queue)
    (hresume : D.resume answer tracked
      (.fetchingPending pass poll directory sessions rest data receivedAt) = some result) :
    Refreshes answer.stampAt result := by
  obtain rfl := Option.some.inj hresume
  have hinforms := hpolling.answered pass poll directory sessions rest data receivedAt rfl
  obtain ⟨map, rfl, hinforms⟩ := (Option.any_eq_true _ _).mp hinforms
  generalize fetchPending (D.pollerOf poll.machine).pendingKinds answer.pending = pending
  have hstarted := hpolling.started poll rfl
  have hexist : ∀ m ∈ pass.machines, ∀ s ∈ m.sessions,
      s < (D.queue.mergeReports sessions (some map) pending answer.now).objs.next := by
    intro m hm s hs
    rw [EndpointQueue.mergeReports_next]
    exact hpolling.exist pass rfl m hm s hs
  have hpolled : ∀ s ∈ poll.machine.sessions,
      s < (D.queue.mergeReports sessions (some map) pending answer.now).objs.next := by
    intro s hs
    rw [EndpointQueue.mergeReports_next]
    exact hpolling.polled poll rfl s hs
  -- the sessions of the directory are refreshed now, the others were or are still to come
  have hrefreshed : ∀ s ∈ poll.machine.sessions, (∃ p ∈ rest, s ∈ p.2) ∨
      poll.startedAt ≤ ((D.queue.mergeReports sessions (some map) pending
        answer.now).objs s).clientStatusAt := by
    intro s hs
    rcases hpolling.refreshed poll rfl s hs with (hmem | hlater) | hdone
    · right
      rw [EndpointQueue.mergeReports_stamp_eq hinforms hmem]
      exact hstarted.trans hnow
    · exact Or.inl hlater
    · exact Or.inr (EndpointQueue.mergeReports_stamp_le (hstarted.trans hnow) hdone)
  have hfinishedLater : ∀ p ∈ D.finished, p.Refreshed answer.stampAt
      (D.queue.mergeReports sessions (some map) pending answer.now) :=
    fun p hp => ((hfinished p hp).merge hnow).mono (hnow.trans hstamp)
  cases rest with
  | nil =>
      refine pollMachines_refreshes pass.machines hexist (endPoll_refreshed
        ⟨hstarted.trans (hnow.trans hstamp), hpolled, fun s hs => ?_⟩ hfinishedLater)
      exact (hrefreshed s hs).resolve_left (by simp)
  | cons next rest =>
      refine ⟨.of_poll rfl rfl hexist (hstarted.trans (hnow.trans hstamp)) hpolled (fun s hs => ?_)
        fun _ _ _ _ _ _ _ hphase => absurd hphase (by simp), hfinishedLater⟩
      refine (hrefreshed s hs).imp_left fun hlater => ?_
      obtain ⟨p, hp, hmem⟩ := hlater
      rcases List.mem_cons.mp hp with rfl | hp
      · exact Or.inl hmem
      · exact Or.inr ⟨p, hp, hmem⟩

/-- A manager that goes on with a poll. The polls it ends have refreshed their sessions. -/
theorem resume_refreshes {phase : ManagerPhase} {result : Desk × ManagerPhase}
    (hpolling : Polling t D.queue phase) (hanswered : phase.WellAnswered answer)
    (hnow : t ≤ answer.now) (hstamp : answer.now ≤ answer.stampAt)
    (hfinished : ∀ p ∈ D.finished, p.Refreshed t D.queue)
    (hresume : D.resume answer tracked phase = some result) : Refreshes answer.stampAt result := by
  cases phase with
  | lookingUp pass poll byDir s rest =>
      exact lookingUp_refreshes hpolling hanswered hnow hstamp hfinished hresume
  | fetchingStatuses pass poll directory sessions rest =>
      obtain rfl := Option.some.inj hresume
      refine ⟨⟨hpolling.exist, ?_, hpolling.polled, hpolling.refreshed, ?_⟩, fun p hp =>
        (hfinished p hp).mono (hnow.trans hstamp)⟩
      · exact fun poll hpoll => (hpolling.started poll hpoll).trans (hnow.trans hstamp)
      · intro _ _ _ _ _ data _ hphase
        injection hphase with _ _ _ _ _ hdata
        rw [← hdata]
        exact hanswered
  | fetchingPending pass poll directory sessions rest data receivedAt =>
      exact fetchingPending_refreshes hpolling hnow hstamp hfinished hresume
  | asleep => exact absurd hresume (by simp [resume])
  | surrendering pass => exact absurd hresume (by simp [resume])

/-- The merge of a manager makes no report older. -/
theorem merged_refreshed {p : Poll} (h : p.Refreshed t D.queue) (hnow : t ≤ answer.now)
    (phase : ManagerPhase) : p.Refreshed t (D.merged answer phase).queue := by
  cases phase with
  | fetchingPending pass poll directory sessions rest data receivedAt => exact h.merge hnow
  | _ => exact h

end Desk

namespace Fleet

variable {F F' : Fleet} {i : Nat} {answer : Answer} {st : Station} {result : Desk × ManagerPhase}

/-- What a manager awaits is answered well. -/
def WellAnswered (F : Fleet) (l : Op × Time) : Prop :=
  match l.1 with
  | .resume i answer => ∀ st ∈ F.stations[i]?, st.manager.WellAnswered answer
  | _ => True

instance (F : Fleet) (l : Op × Time) : Decidable (F.WellAnswered l) :=
  match l with
  | (.resume i _, _) => inferInstanceAs (Decidable (∀ st ∈ F.stations[i]?, _))
  | (.endpoint _ _, _) | (.start _ _, _) => inferInstanceAs (Decidable True)

/-- The polls that a step brings to their end were, as they started, polls of all sessions of
their machine. -/
def EndsWholePolls (F : Fleet) (l : Op × Time) : Prop :=
  match l.1 with
  | .endpoint _ _ => True
  | .start i _ | .resume i _ => ∀ st ∈ F.stations[i]?, ∀ result ∈ F.segment st l.1,
      ∀ p ∈ result.1.finished, p.IsWhole i

instance (F : Fleet) (l : Op × Time) : Decidable (F.EndsWholePolls l) :=
  match l with
  | (.endpoint _ _, _) => inferInstanceAs (Decidable True)
  | (.start i answer, _) => inferInstanceAs (Decidable (∀ st ∈ F.stations[i]?,
      ∀ result ∈ F.segment st (.start i answer), ∀ p ∈ result.1.finished, p.IsWhole i))
  | (.resume i answer, _) => inferInstanceAs (Decidable (∀ st ∈ F.stations[i]?,
      ∀ result ∈ F.segment st (.resume i answer), ∀ p ∈ result.1.finished, p.IsWhole i))

/-- A manager that makes a step, up to its tick. -/
theorem ManagerStep.refreshes {l : Op × Time} (h : F.ManagerStep i l.1 answer l.2 st result)
    (horderly : Orderly F.clock st) (hpolling : Polling F.clock st.endpoint.queue st.manager)
    (hanswered : F.WellAnswered l) : Desk.Refreshes answer.stampAt result := by
  rcases h.cases with ⟨-, hasleep, rfl⟩ | ⟨hop, hresume⟩
  · obtain ⟨cfg, hbalanced⟩ := horderly.balanced
    refine Desk.pollMachines_refreshes _ (fun m hm s hs => ?_)
      fun p hp => absurd hp List.not_mem_nil
    rw [Desk.sessions_of_machines _ hm] at hs
    obtain ⟨k, hk⟩ := OrdDict.mem_values_iff.mp (List.mem_of_mem_filter hs)
    exact (hbalanced.filed k s hk).1
  · obtain ⟨op, clock⟩ := l
    dsimp only at hop
    subst hop
    exact Desk.resume_refreshes (D := F.desk st) hpolling (hanswered st h.station) h.clock_le_now
      h.now_le_stampAt (fun p hp => absurd hp List.not_mem_nil) hresume

/-- The tick of a step carries the queue over. -/
theorem settled_carried (t : Time) (st : Station) (source : SessionRef → Time) (answer : Answer)
    (result : Desk × ManagerPhase) :
    Carried t result.1.queue (settled st source answer result).endpoint.queue := by
  unfold settled
  split
  · exact (Carried.refl t _).tick _ _
  · exact .refl t _

theorem ManagerStep.polling {l : Op × Time} (h : F.ManagerStep i l.1 answer l.2 st result)
    (hrefreshes : Desk.Refreshes answer.stampAt result) (source : SessionRef → Time) :
    Polling l.2 (settled st source answer result).endpoint.queue
      (settled st source answer result).manager := by
  unfold settled
  split
  · exact .of_idle _ _ rfl fun pass hpass => absurd hpass (by simp [ManagerPhase.pass?])
  · exact hrefreshes.polling.mono h.stampAt_le

theorem ManagerStep.isWhole {l : Op × Time} (h : F.ManagerStep i l.1 answer l.2 st result)
    (hwhole : F.EndsWholePolls l) : ∀ p ∈ result.1.finished, p.IsWhole i := by
  have hop := h.op_eq
  have hsegment := h.segment
  obtain ⟨op, clock⟩ := l
  dsimp only at hop hsegment
  rcases hop with rfl | rfl
  · exact hwhole st h.station result hsegment
  · exact hwhole st h.station result hsegment

/-- The poll has refreshed its sessions, and they still are. -/
def Ended (F : Fleet) (e : Nat × Poll) : Prop :=
  ∃ st, F.stations[e.1]? = some st ∧ e.2.Refreshed F.clock st.endpoint.queue

/-- A poll that has ended, after a step of one station. -/
theorem Ended.set {e : Nat × Poll} (h : F.Ended e) (hst : F.stations[i]? = some st)
    {st' : Station} (hstations : F'.stations = F.stations.set i st') (hclock : F.clock ≤ F'.clock)
    (hkeeps : e.2.Refreshed F.clock st.endpoint.queue →
      e.2.Refreshed F.clock st'.endpoint.queue) : F'.Ended e := by
  obtain ⟨st₀, hst₀, hrefreshed⟩ := h
  unfold Ended
  rw [hstations]
  by_cases hei : e.1 = i
  · rw [hei] at hst₀ ⊢
    obtain rfl : st = st₀ := Option.some.inj (hst.symm.trans hst₀)
    exact ⟨st', List.getElem?_set_self (List.getElem?_eq_some_iff.mp hst).1,
      (hkeeps hrefreshed).mono hclock⟩
  · exact ⟨st₀, (List.getElem?_set_ne (Ne.symm hei)).trans hst₀, hrefreshed.mono hclock⟩

/-- Every poll that has ended was whole, and its sessions are refreshed. -/
def Complete (F : Fleet) : Prop := ∀ e ∈ F.finished, e.2.IsWhole e.1 ∧ F.Ended e

theorem complete_step {l : Op × Time} (h : F.step l = some F')
    (hstations : ∀ st ∈ F.stations, Orderly F.clock st ∧
      Polling F.clock st.endpoint.queue st.manager)
    (hanswered : F.WellAnswered l) (hwhole : F.EndsWholePolls l) (hF : F.Complete) :
    F'.Complete := by
  rcases step_cases h with ⟨i, op, st, E, -, hendpoint, rfl⟩ |
    ⟨i, answer, st, result, hmanager, rfl⟩
  · intro e he
    obtain ⟨hmine, hended⟩ := hF e he
    exact ⟨hmine, hended.set hendpoint.station rfl hendpoint.clock_le fun hrefreshed =>
      hrefreshed.carried hendpoint.carried⟩
  · have hst := hstations st (List.mem_of_getElem? hmanager.station)
    intro e he
    rcases List.mem_append.mp he with hold | hnew
    · obtain ⟨hmine, hended⟩ := hF e hold
      refine ⟨hmine, hended.set hmanager.station rfl hmanager.clock_le fun hrefreshed => ?_⟩
      exact (Desk.merged_refreshed (D := F.desk st) hrefreshed hmanager.clock_le_now
        st.manager).carried (hmanager.carried_settled 0 _)
    · obtain ⟨p, hp, rfl⟩ := List.mem_map.mp hnew
      refine ⟨hmanager.isWhole hwhole p hp, _, List.getElem?_set_self
        (List.getElem?_eq_some_iff.mp hmanager.station).1,
        Poll.Refreshed.mono ?_ hmanager.stampAt_le⟩
      exact ((hmanager.refreshes hst.1 hst.2 hanswered).finished p hp).carried
        (settled_carried 0 st _ answer result)

/-- **A whole poll refreshes every tracked session of its machine.** In every run in which the
clients answer well, and in which the polls that come to their end were polls of all sessions of
the machine tracked on any endpoint as they started, each of these sessions has a report that is
no older than the stamp of the poll. -/
theorem refreshed_of_run {cfgs : List EndpointConfig} {pollers : OrdDict String Poller}
    {clock : Time} {ls : List (Op × Time)}
    (h : Run (Steps step (fun F l => F.WellAnswered l ∧ F.EndsWholePolls l))
      (init cfgs pollers clock) ls F) :
    ∀ e ∈ F.finished, ∀ w ∈ e.2.watched, ∃ st, F.stations[w.1]? = some st ∧
      e.2.startedAt ≤ (st.endpoint.queue.objs w.2).clientStatusAt := by
  have hinv : (∀ st ∈ F.stations, Orderly F.clock st ∧
      Polling F.clock st.endpoint.queue st.manager) ∧ F.Complete := by
    refine h.invariant (I := fun F => (∀ st ∈ F.stations, Orderly F.clock st ∧
      Polling F.clock st.endpoint.queue st.manager) ∧ F.Complete) ?_ ?_
    · intro F l F' hF hstep
      obtain ⟨hstations, hcomplete⟩ := hF
      obtain ⟨hstep, hanswered, hwhole⟩ := hstep
      refine ⟨?_, complete_step hstep hstations hanswered hwhole hcomplete⟩
      refine stations_step (J := fun t st => Orderly t st ∧
        Polling t st.endpoint.queue st.manager) ?_ ?_ ?_ hstep hstations
      · exact fun t t' st hle hst => ⟨hst.1.mono hle, hst.2.mono hle⟩
      · exact fun i op st E _ hendpoint hst =>
          ⟨hst.1.endpoint hendpoint, (hst.2.carried hendpoint.carried).mono hendpoint.clock_le⟩
      · exact fun i answer st result hmanager hst => ⟨hst.1.manager hmanager _,
          hmanager.polling (hmanager.refreshes hst.1 hst.2 hanswered) _⟩
    · refine ⟨fun st hst => ⟨orderly_init cfgs pollers clock st hst, ?_⟩,
        fun x hx => absurd hx List.not_mem_nil⟩
      obtain ⟨cfg, -, rfl⟩ := List.mem_map.mp hst
      exact .of_idle _ _ rfl fun pass hpass => absurd hpass (by simp [ManagerPhase.pass?])
  intro e he w hw
  obtain ⟨hmine, st, hst, hrefreshed⟩ := hinv.2 e he
  obtain ⟨hwi, hsession⟩ := hmine w hw
  exact ⟨st, hwi ▸ hst, hrefreshed.refreshed w.2 hsession⟩

/-- Two endpoints that one client uses. -/
def twoEndpoints : Fleet :=
  init [.queued (.ofArgs 1 1 300 600 false false), .queued (.ofArgs 1 1 300 600 false false)]
    oneClient 0

/-- A request of session `b` is admitted on endpoint 1, and forwarded. -/
def otherAdmission : List (Op × Time) :=
  [on 1 (.manage (.setReady true)) 4, on 1 (.arrive (requested "b")) 5, runs 1 0 5, runs 1 0 6,
    runs 1 0 7]

/-- The manager of endpoint 0 polls the client, which reports both sessions busy. -/
def poll : List (Op × Time) :=
  [wakes 0 10, finds 0 "/w" 11,
    maps 0 ((OrdDict.empty.insert "a" (.object (some "busy") none)).insert "b"
      (.object (some "busy") none)) 12,
    lists 0 13]

theorem refreshed_of_run_poll :
    ∃ F, exec (guarded step (fun F l => F.WellAnswered l ∧ F.EndsWholePolls l)) twoEndpoints
        (admission ++ poll) = some F ∧
      ∃ e ∈ F.finished, e.1 = 0 ∧ e.2.startedAt = 10 ∧ e.2.watched = [(0, 0)] ∧
        ∃ st, F.stations[0]? = some st ∧
          e.2.startedAt ≤ (st.endpoint.queue.objs 0).clientStatusAt := by
  have hview : (exec (guarded step (fun F l => F.WellAnswered l ∧ F.EndsWholePolls l))
      twoEndpoints (admission ++ poll)).map
      (fun F => F.finished.map (fun e => (e.1, e.2.startedAt, e.2.watched))) =
        some [(0, 10, [(0, 0)])] := by decide +kernel
  obtain ⟨F, hexec, hF⟩ := Option.map_eq_some_iff.mp hview
  obtain ⟨e, he, hmap⟩ := List.mem_map.mp (hF ▸ List.mem_singleton.mpr rfl :
    (0, (10 : Time), [((0 : Nat), (0 : SessionRef))]) ∈ F.finished.map _)
  obtain ⟨hi, hmap⟩ := Prod.mk.inj hmap
  obtain ⟨hstarted, hwatched⟩ := Prod.mk.inj hmap
  have hrefreshed := refreshed_of_run (run_of_exec_guarded hexec) e he (0, 0) (by simp [hwatched])
  exact ⟨F, hexec, e, he, hi, hstarted, hwatched, hrefreshed⟩

/-- The session of endpoint 1 is polled by no manager within the interval, and its busy report
does not reach the proxy. -/
theorem refreshed_counterexample :
    ∃ F, exec (guarded step WellAnswered) twoEndpoints (admission ++ otherAdmission ++ poll) =
        some F ∧
      ∃ e ∈ F.finished, e.2.startedAt = 10 ∧ e.2.watched = [(0, 0), (1, 0)] ∧
        ∃ st, F.stations[1]? = some st ∧ (st.endpoint.queue.objs 0).sessionId = "b" ∧
          ¬ e.2.startedAt ≤ (st.endpoint.queue.objs 0).clientStatusAt := by
  have hview : (exec (guarded step WellAnswered) twoEndpoints
      (admission ++ otherAdmission ++ poll)).map
      (fun F => (F.finished.map (fun e => (e.2.startedAt, e.2.watched)),
        (F.stations[1]?).map (fun st => ((st.endpoint.queue.objs 0).sessionId,
          (st.endpoint.queue.objs 0).clientStatusAt)))) =
        some ([(10, [(0, 0), (1, 0)])], some ("b", 0)) := by decide +kernel
  obtain ⟨F, hexec, hF⟩ := Option.map_eq_some_iff.mp hview
  obtain ⟨hfinished, hstation⟩ := Prod.mk.inj hF
  obtain ⟨e, he, hmap⟩ := List.mem_map.mp (hfinished ▸ List.mem_singleton.mpr rfl :
    ((10 : Time), [((0 : Nat), (0 : SessionRef)), (1, 0)]) ∈ F.finished.map _)
  obtain ⟨hstarted, hwatched⟩ := Prod.mk.inj hmap
  obtain ⟨st, hst, hmap⟩ := Option.map_eq_some_iff.mp hstation
  obtain ⟨hid, hstamp⟩ := Prod.mk.inj hmap
  refine ⟨F, hexec, e, he, hstarted, hwatched, st, hst, hid, ?_⟩
  rw [hstarted, hstamp]
  decide +kernel

end Fleet

end Relay
