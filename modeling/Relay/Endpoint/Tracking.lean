import Relay.Endpoint.Balance

/-!
# Relay.Endpoint.Tracking

**Is every spot held by a session the table knows?** An admission looks its session up
before it suspends and uses it afterwards. Meanwhile a tick may find the session without
spot or requests and forget it. `FindsSession` says that an admission that goes on finds
its session where it left it; `tracked_of_run` shows that then no spot is ever untracked
and no key has two live session objects. `tracked_counterexample` is a tick between the
store write of an admission and its place in the queue: the spot it takes belongs to no
session of the table, and nothing will ever surrender it.
-/

namespace Relay

open Runs

namespace EndpointQueue

variable {q : EndpointQueue}

instance (q : EndpointQueue) (s : SessionRef) : Decidable (q.Registered s) :=
  inferInstanceAs (Decidable (_ = _))

/-- Every spot is held by the session the table stores under its key, and every key has
at most one live session object. -/
def Tracked (q : EndpointQueue) : Prop :=
  (∀ k ∈ q.spots, ∃ s, q.sessions.get? k = some s ∧ (q.objs s).key = k ∧
    (q.objs s).spotHeld = true) ∧
  ∀ s s', q.Live s → q.Live s' → (q.objs s).key = (q.objs s').key → s = s'

theorem Registry.tracked (h : Registry q) : Tracked q := by
  constructor
  · intro k hk
    obtain ⟨s, hs, hheld⟩ := (h.spot_iff k).mp hk
    exact ⟨s, hs, h.key_of k s hs, hheld⟩
  · exact fun s s' hs hs' hkey => registered_unique (h.live s hs) (h.live s' hs') hkey

end EndpointQueue

namespace Endpoint

open EndpointQueue (Accounts Registry Tracked)

variable {E E' : Endpoint} {cfg : EndpointConfig} {t : Task} {q : EndpointQueue} {a : Int}
  {phase : Phase}

/-- The session a suspended admission goes on with: the store write is done, or there is
a spot for the connection. -/
def usedSession (E : Endpoint) : Op → Option SessionRef
  | .resume i input =>
      match (E.tasks[i]?).map Task.phase with
      | some (.recording s) => if input.failed then none else some s
      | some (.spotWaiting s _) =>
          if (E.queue.holdWsSpot s input.promoteAt).isSome then some s else none
      | _ => none
  | _ => none

/-- An admission that goes on finds the session it has looked up still in the table. -/
def FindsSession (E : Endpoint) (op : Op) : Prop := ∀ s ∈ E.usedSession op, E.queue.Registered s

instance (E : Endpoint) (op : Op) : Decidable (E.FindsSession op) :=
  inferInstanceAs (Decidable (∀ s ∈ _, _))

/-! ### Steps -/

theorem registry_join (hacc : Accounts E.queue E.tunnels) (hreg : Registry E.queue)
    {s : SessionRef} (hlt : s < E.queue.objs.next) (hs : E.queue.Registered s) (path : String)
    (now promoteAt : Time) :
    Registry ((E.queue.newEntry s path now).2.enqueue (E.queue.newEntry s path now).1
      promoteAt) := by
  set made := E.queue.newEntry s path now with hmade
  have hentry : made.2.entries made.1 = { session := s, path := path, enqueuedAt := now } :=
    Heap.alloc_self _ _
  have hmine : made.2.Registered (made.2.sessionOf made.1) := by
    rw [EndpointQueue.sessionOf, hentry]
    exact hs
  have hnew : Registry made.2 := hreg.congr rfl rfl rfl rfl (fun _ => ⟨rfl, rfl⟩) hreg.live
  have hnot : made.1 ∉ made.2.queue := fun he =>
    Nat.lt_irrefl _ (hacc.queue_done _ he).1
  have happended := (hacc.newEntry hlt path now).append (Nat.lt_succ_self _)
    (congrArg QueueEntry.done hentry) hnot
  exact ((EndpointQueue.managed_registry _).tryPromote ⟨happended, hnew.append hmine⟩ promoteAt).2

theorem registry_release (hacc : Accounts E.queue E.tunnels) (hreg : Registry E.queue)
    {e : EntryRef} (he : e ∈ E.queue.running) (now promoteAt : Time) :
    Registry (E.queue.release e now promoteAt) :=
  ((EndpointQueue.managed_registry _).tryPromote
    ⟨hacc.finish he now, hreg.finish (hreg.registered_of_mem_running hacc he) now⟩ promoteAt).2

/-- The end of a connection: its session is registered, because it counts the connection. -/
theorem registry_disconnect (hacc : Accounts E.queue E.tunnels) (hreg : Registry E.queue)
    {s : SessionRef} (hs : E.tunnels s ≠ 0) (now : Time) :
    Registry (E.queue.releaseWsSpot s now) := by
  have hmine := hreg.registered_of_held hacc hs
  have hended := hreg.endWs hmine
  have hmine' : (E.queue.endWs s).Registered s := by
    rw [EndpointQueue.Registered, EndpointQueue.endWs_objs,
      Heap.modify_proj Session.key _ _ Session.disconnected fun _ => rfl]
    exact hmine
  rcases EndpointQueue.releaseWsSpot_cases E.queue s now with ⟨-, heq⟩ | ⟨-, heq⟩
  · rw [heq]
    have hone : ∀ s', (E.tunnels s' - if s' = s then 1 else 0) + (if s' = s then 1 else 0) =
        E.tunnels s' := by
      intro s'
      by_cases hs' : s' = s
      · subst hs'
        simp only [if_pos]
        omega
      · simp [hs']
    exact ((EndpointQueue.managed_registry _).tryPromote
      ⟨(hacc.endWs hone).dropSpot s, hended.dropSpot hmine'⟩ now).2
  · rw [heq]
    exact hended

/-- One pass of the loop of `_hold_ws_spot`. -/
theorem registry_pass {q' : EndpointQueue} {s : SessionRef} (hreg : Registry q)
    (hs : (∃ s', phase = .tunnel s') → q.Registered s) (hpass : SpotPass q s q' phase) :
    Registry q' := by
  cases hpass with
  | granted hhold => exact hreg.holdWsSpot (hs ⟨_, rfl⟩) hhold
  | refused => exact hreg
  | waits hfull => exact hreg

/-- A task that runs on keeps the registry, when it uses a registered session. -/
theorem registry_move (h : Balanced cfg E) (hreg : Registry E.queue) {i : Nat} {input : Input}
    (ht : E.tasks[i]? = some t) (hmove : Move E t q a phase)
    (hrun : E.run t input = some ({ E with queue := q, activeForwards := a }, phase))
    (hfinds : E.FindsSession (.resume i input)) : Registry q := by
  have hmem := List.mem_of_getElem? ht
  have hphase : (E.tasks[i]?).map Task.phase = some t.phase := by rw [ht]; rfl
  cases hmove with
  | begin hidle => exact hreg.getOrCreateSession _ _
  | @join s path now promoteAt phase hrec hhead =>
      have hs : E.queue.Registered s := by
        refine hfinds s ?_
        simp only [usedSession, hphase, hrec]
        cases hfailed : input.failed with
        | false => rfl
        | true =>
            -- a failed write ends the admission
            simp only [run, hrec, hfailed] at hrun
            have hover : Phase.ended .failed = phase := congrArg Prod.snd (Option.some.inj hrun)
            have hopen := entryRef?_slotHead
              { E with
                queue := (E.queue.newEntry s path now).2.enqueue (E.queue.newEntry s path now).1
                  promoteAt }
              (E.queue.newEntry s path now).1
            rw [hhead, ← hover] at hopen
            exact absurd hopen (by simp [Phase.entryRef?])
      exact registry_join h.accounts hreg (h.pending_lt t hmem s (by rw [hrec]; rfl)) hs _ _ _
  | @abandon e reply hpoll hdone hreply =>
      have he := h.steady.mem_queue_of_not_done
        (isOpen_of_mem h.owners_eq hmem (by rw [hpoll]; rfl)) hdone
      exact hreg.abandon (hreg.registered_of_mem_queue h.accounts he)
  | @leave e reply now promoteAt hpoll hdone hreply =>
      have he := h.steady.running_of_done
        (isOpen_of_mem h.owners_eq hmem (by rw [hpoll]; rfl)) hdone
      exact registry_release h.accounts hreg he _ _
  | @finish e now promoteAt hforward =>
      have he := (h.lifecycle.running_iff e).mp (h.running t hmem e hforward)
      exact registry_release h.accounts hreg he _ _
  | connect hidle hpass =>
      exact registry_pass (hreg.getOrCreateSession _ _)
        (fun _ => EndpointQueue.getOrCreateSession_registered hreg _ _) hpass
  | @retry s deadline q phase hwait hpass =>
      refine registry_pass hreg ?_ hpass
      rintro ⟨s', rfl⟩
      refine hfinds s ?_
      cases hpass with
      | granted hhold =>
          have hsome : (E.queue.holdWsSpot s input.promoteAt).isSome = true := by
            rw [EndpointQueue.holdWsSpot_isSome, hhold]
            rfl
          simp [usedSession, hphase, hwait, hsome]
  | @disconnect s promoteAt htunnel =>
      have hpos : 0 < E.tunnels s :=
        List.countP_pos_iff.mpr ⟨t, hmem, by rw [htunnel]; simp [Phase.tunnel?]⟩
      exact registry_disconnect h.accounts hreg (Nat.ne_of_gt hpos) _
  | _ => exact hreg

/-- A step in which an admission finds its session keeps the registry. -/
theorem registry_step (h : Balanced cfg E) (hreg : Registry E.queue) {op : Op}
    (hstep : E.step op = some E') (hfinds : E.FindsSession op) : Registry E'.queue := by
  rcases step_cases hstep with ⟨request, -, rfl⟩ |
    ⟨i, input, t, q, a, phase, rfl, ht, hmove, hrun, rfl⟩ | ⟨qop, q, -, hmanaged, hqstep, rfl⟩
  · exact hreg
  · exact registry_move h hreg ht hmove hrun hfinds
  · exact ((EndpointQueue.managed_registry _).step ⟨h.accounts, hreg⟩ hmanaged hqstep).2

/-! ### Runs -/

/-- **No spot is untracked.** In every run in which each admission that goes on finds the
session it has looked up, every spot of every state is held by the session the table
stores under its key, and no key has two live session objects. -/
theorem tracked_of_run {ops : List Op}
    (h : Run (Steps step FindsSession) (Endpoint.init cfg) ops E) :
    Tracked E.queue := by
  have hinv : Balanced cfg E ∧ Registry E.queue := by
    refine h.invariant (I := fun E => Balanced cfg E ∧ Registry E.queue) ?_
      ⟨Balanced.init cfg, .init cfg.queue⟩
    intro E op E' hE hstep
    exact ⟨hE.1.step hstep.1, registry_step hE.1 hE.2 hstep.1 hstep.2⟩
  exact hinv.2.tracked

/-- On one spot a request runs and finishes; a connection of another session waits until
the spot is released by hand, and is given it. -/
def connectionWaits : List Op :=
  [.manage (.setReady true), .arrive (.ofSession .http "a"), .resume 0 {}, .resume 0 {},
    .resume 0 {}, .arrive (.ofSession .webSocket "b"), .resume 1 {}, .resume 1 {},
    .resume 0 { now := 5 }, .manage (.releaseSession "unknown" "a" 6),
    .resume 1 { promoteAt := 7 }]

theorem tracked_of_run_connectionWaits :
    ∃ E, exec (guarded step FindsSession) (Endpoint.init (.queued EndpointQueue.oneSpot))
        connectionWaits = some E ∧
      E.tasks.map Task.phase = [.ended .forwarded, .tunnel 1] ∧
      E.queue.spots.keys = [("unknown", "b")] ∧ Tracked E.queue := by
  have hview : (exec (guarded step FindsSession)
      (Endpoint.init (.queued EndpointQueue.oneSpot)) connectionWaits).map
      (fun E => (E.tasks.map Task.phase, E.queue.spots.keys)) =
        some ([.ended .forwarded, .tunnel 1], [("unknown", "b")]) := by decide +kernel
  obtain ⟨E, hexec, hE⟩ := Option.map_eq_some_iff.mp hview
  obtain ⟨hphases, hspots⟩ := Prod.mk.inj hE
  exact ⟨E, hexec, hphases, hspots, tracked_of_run (run_of_exec_guarded hexec)⟩

/-- A tick lands between the store write of an admission and its place in the queue; then
another request of the same session arrives. -/
def tickDuringStoreWrite : List Op :=
  [.manage (.setReady true), .arrive (.ofSession .http "a"), .resume 0 {},
    .resume 0 { now := 1 }, .manage (.tick 2 (fun _ => 2)), .resume 0 { now := 3 },
    .arrive (.ofSession .http "a"), .resume 1 {}, .resume 1 { now := 4 }, .resume 1 { now := 5 }]

/-- The spot is held by a session object that the table has dropped, not by the one it
stores under the key, and both have a request in flight. -/
theorem tracked_counterexample :
    ∃ E, exec step (Endpoint.init (.queued EndpointQueue.oneSpot)) tickDuringStoreWrite = some E ∧
      E.queue.spots.keys = [("unknown", "a")] ∧
      E.queue.sessions.get? ("unknown", "a") = some 1 ∧ (E.queue.objs 1).spotHeld = false ∧
      E.queue.Live 0 ∧ E.queue.Live 1 ∧ (E.queue.objs 0).key = (E.queue.objs 1).key ∧
      ¬ Tracked E.queue := by
  have hview : (exec step (Endpoint.init (.queued EndpointQueue.oneSpot))
      tickDuringStoreWrite).map (fun E => (E.queue.spots.keys,
        E.queue.sessions.get? ("unknown", "a"), (E.queue.objs 1).spotHeld,
        (E.queue.objs 0).inflight, (E.queue.objs 1).inflight,
        decide ((E.queue.objs 0).key = (E.queue.objs 1).key))) =
      some ([("unknown", "a")], some 1, false, 1, 1, true) := by decide +kernel
  obtain ⟨E, hexec, hE⟩ := Option.map_eq_some_iff.mp hview
  obtain ⟨hspots, hE⟩ := Prod.mk.inj hE
  obtain ⟨hsession, hE⟩ := Prod.mk.inj hE
  obtain ⟨hheld, hE⟩ := Prod.mk.inj hE
  obtain ⟨hold, hE⟩ := Prod.mk.inj hE
  obtain ⟨hnew, hkey⟩ := Prod.mk.inj hE
  have hlive : ∀ s, (E.queue.objs s).inflight = 1 → E.queue.Live s := fun s hs =>
    Or.inr (Or.inr (by rw [hs]; decide))
  refine ⟨E, hexec, hspots, hsession, hheld, hlive 0 hold, hlive 1 hnew,
    of_decide_eq_true hkey, fun htracked => ?_⟩
  exact absurd (htracked.2 0 1 (hlive 0 hold) (hlive 1 hnew) (of_decide_eq_true hkey))
    Nat.zero_ne_one

end Endpoint

end Relay
