import Relay.Endpoint.Fleet
import Relay.Queue.Reports

/-!
# Relay.Endpoint.Reports

The steps of a fleet with respect to what the clients have reported: a step of an endpoint
carries the queue over, and so does a manager once it has merged the answers of a directory.
A session therefore keeps the client and the id it is known by (`named_of_run`), in a table that
is in order (`filed_of_run`).
-/

namespace Relay

namespace EndpointQueue

namespace Carried

variable {t now : Time} {q q' q'' : EndpointQueue} {s : SessionRef}

theorem holdWsSpot (h : Carried t q q') (hhold : q'.holdWsSpot s now = some q'') :
    Carried t q q'' := by
  have hcount : ∀ {q' : EndpointQueue}, Carried t q q' → Carried t q (q'.countWs s) := fun hq =>
    hq.quiet (countWs_objs _ s) (fun _ => rfl)
  rcases holdWsSpot_cases hhold with ⟨-, rfl⟩ | ⟨-, -, rfl⟩
  · exact hcount h
  · exact hcount (h.quiet (acquireSpot_objs q' s now) (fun _ => rfl))

theorem releaseWsSpot (h : Carried t q q') (s : SessionRef) (now : Time) :
    Carried t q (q'.releaseWsSpot s now) := by
  have hended : Carried t q (q'.endWs s) :=
    h.quiet (endWs_objs q' s) (fun _ => rfl)
  rcases releaseWsSpot_cases q' s now with ⟨-, heq⟩ | ⟨-, heq⟩
  · rw [heq]
    exact (hended.quiet (dropSpot_objs _ s) (fun _ => rfl)).tryPromote now
  · rw [heq]
    exact hended

end Carried

end EndpointQueue

/-! ### The steps of a task -/

namespace Endpoint

open EndpointQueue (Carried)

variable {E E' : Endpoint} {q : EndpointQueue} {clock : Time} {input : Input}

theorem spotHead_carried (h : Carried clock q E.queue) (s : SessionRef) (deadline : Option Time)
    (input : Input) : Carried clock q (E.spotHead s deadline input).1.queue := by
  unfold spotHead
  cases hhold : E.queue.holdWsSpot s input.promoteAt with
  | some q' => exact h.holdWsSpot hhold
  | none =>
      dsimp only
      split
      · exact h
      · exact h

theorem connect_carried (h : Carried clock q E.queue) (hnow : clock ≤ input.now)
    (request : Request) : Carried clock q (E.connect request input).1.queue := by
  unfold connect
  split
  · exact spotHead_carried (E := { E with
      queue := (E.queue.getOrCreateSession request.requester input.now).2 })
      (h.getOrCreateSession request.requester hnow) _ _ _
  · exact h

theorem wsReadyHead_carried (h : Carried clock q E.queue) (hnow : clock ≤ input.now)
    (request : Request) (deadline : Option Time) :
    Carried clock q (E.wsReadyHead request deadline input).1.queue := by
  unfold wsReadyHead
  split
  · exact connect_carried h hnow request
  · split
    · exact h
    · exact h

theorem beginQueued_carried (h : Carried clock q E.queue) (hnow : clock ≤ input.now)
    (request : Request) : Carried clock q (E.beginQueued request input).1.queue := by
  unfold beginQueued
  split
  · exact h
  · exact h.getOrCreateSession request.requester hnow

theorem readyHead_carried (h : Carried clock q E.queue) (request : Request)
    (deadline : Option Time) : Carried clock q (E.readyHead request deadline).1.queue := by
  unfold readyHead
  split
  · exact h
  · exact h

theorem gate_carried (h : Carried clock q E.queue) (hnow : clock ≤ input.now)
    (request : Request) : Carried clock q (E.gate request input).1.queue := by
  have hbegin : Carried clock q (E.beginQueued request input).1.queue :=
    beginQueued_carried h hnow request
  unfold gate
  cases request.kind
  case http | catchAll =>
    dsimp only
    split
    · split
      · exact hbegin
      · cases E.cfg.waitPolicy with
        | error => exact h
        | wait =>
            dsimp only
            split
            · exact h
            · exact hbegin
    · split
      · exact h
      · cases E.cfg.waitPolicy with
        | error => exact h
        | wait => exact readyHead_carried h request _
  case webSocket | catchAllWebSocket =>
    dsimp only
    split
    · exact connect_carried h hnow request
    · cases E.cfg.waitPolicy with
      | error => exact h
      | wait => exact wsReadyHead_carried h hnow request _

theorem leaveQueue_carried (h : Carried clock q E.queue) (hstamp : clock ≤ input.stampAt)
    (e : EntryRef) (reply : Reply) : Carried clock q (E.leaveQueue e reply input).1.queue := by
  change Carried clock q (if (E.queue.entries e).done then
    E.queue.release e input.stampAt input.promoteAt else E.queue.abandon e)
  split
  · exact h.release e hstamp input.promoteAt
  · exact h.abandon e

/-- A task that goes on carries the queue over; its requests and responses are those of now. -/
theorem run_carried {t : Task} {result : Step} (h : E.run t input = some result)
    (hnow : clock ≤ input.now) (hstamp : clock ≤ input.stampAt) :
    Carried clock E.queue result.1.queue := by
  have hsame : Carried clock E.queue E.queue := .refl clock E.queue
  unfold run at h
  cases hphase : t.phase with
  | arrived =>
      simp only [hphase] at h
      obtain rfl := Option.some.inj h
      unfold start
      split
      · exact hsame
      · exact gate_carried hsame hnow t.request
  | probing =>
      simp only [hphase] at h
      obtain rfl := Option.some.inj h
      split
      · exact hsame
      · exact gate_carried hsame hnow t.request
  | waking =>
      simp only [hphase] at h
      obtain rfl := Option.some.inj h
      split
      · exact hsame
      · exact beginQueued_carried hsame hnow t.request
  | recording s =>
      simp only [hphase] at h
      obtain rfl := Option.some.inj h
      split
      · exact hsame
      · unfold joinQueue
        rw [slotHead_fst]
        exact hsame.enqueue s t.request.path input.now input.promoteAt
  | polling e =>
      simp only [hphase] at h
      obtain rfl := Option.some.inj h
      unfold slotPolled
      split
      · exact leaveQueue_carried hsame hstamp e .disconnected
      · split
        · exact leaveQueue_carried hsame hstamp e .timedOut
        · exact hsame
  | sleeping e =>
      simp only [hphase] at h
      obtain rfl := Option.some.inj h
      rw [slotHead_fst]
      exact hsame
  | forwarding e =>
      simp only [hphase] at h
      obtain rfl := Option.some.inj h
      exact hsame.release e hstamp input.promoteAt
  | readyPolling deadline =>
      simp only [hphase] at h
      obtain rfl := Option.some.inj h
      split
      · exact hsame
      · unfold readyPolled
        split
        · exact hsame
        · split
          · exact hsame
          · exact hsame
  | readySleeping deadline =>
      simp only [hphase] at h
      obtain rfl := Option.some.inj h
      exact readyHead_carried hsame t.request deadline
  | forwardingUnqueued =>
      simp only [hphase] at h
      obtain rfl := Option.some.inj h
      exact hsame
  | wsReadyWaiting deadline =>
      simp only [hphase] at h
      obtain rfl := Option.some.inj h
      exact wsReadyHead_carried hsame hnow t.request deadline
  | spotWaiting s deadline =>
      simp only [hphase] at h
      obtain rfl := Option.some.inj h
      exact spotHead_carried hsame s deadline input
  | tunnel s =>
      simp only [hphase] at h
      obtain rfl := Option.some.inj h
      exact hsame.releaseWsSpot s input.promoteAt
  | tunnelUnqueued =>
      simp only [hphase] at h
      obtain rfl := Option.some.inj h
      exact hsame
  | ended reply =>
      simp only [hphase] at h
      exact absurd h (by simp)

/-- A step of an endpoint carries its queue over, unless it is one of the queue manager. -/
theorem step_carried {op : Op} (h : E.step op = some E') (hop : op.isManagers = false)
    (hreadings : ∀ t ∈ op.readings, clock ≤ t) : Carried clock E.queue E'.queue := by
  have hsame : Carried clock E.queue E.queue := .refl clock E.queue
  rcases step_cases h with ⟨request, rfl, rfl⟩ |
    ⟨i, input, t, q, a, phase, rfl, -, -, hrun, rfl⟩ | ⟨qop, q, rfl, hmanaged, hqstep, rfl⟩
  · exact hsame
  · exact run_carried hrun (hreadings _ (by simp [Op.readings]))
      (hreadings _ (by simp [Op.readings]))
  · change EndpointQueue.step E.queue qop = some q at hqstep
    change Carried clock E.queue q
    cases qop with
    | releaseSession client sessionId promoteAt =>
        obtain rfl := Option.some.inj hqstep
        exact hsame.releaseSession client sessionId promoteAt
    | setReady ready =>
        obtain rfl := Option.some.inj hqstep
        exact hsame.congr rfl
    | tryPromote now =>
        obtain rfl := Option.some.inj hqstep
        exact hsame.tryPromote now
    | tick _ _ | setClientStatus _ _ _ _ | setSharedSpotKey _ _ =>
        exact absurd hop (by simp [Op.isManagers])
    | admitQueued _ _ _ _ _ | abandon _ | release _ _ _ =>
        exact absurd hmanaged Bool.false_ne_true

end Endpoint

/-! ### The steps of a manager -/

namespace Fleet

open Runs
open EndpointQueue (Carried Named)

variable {F F' : Fleet} {i : Nat} {op : Op} {answer : Answer} {clock : Time} {st : Station}
  {result : Desk × ManagerPhase}

theorem EndpointStep.carried {op : Endpoint.Op} {E : Endpoint}
    (h : F.EndpointStep i op clock st E) : Carried F.clock st.endpoint.queue E.queue :=
  Endpoint.step_carried h.step h.notManagers fun t ht => (h.readings t ht).1

/-- After its merge a manager carries the queue over to its tick. -/
theorem ManagerStep.carried (h : F.ManagerStep i op answer clock st result) (t : Time) :
    Carried t ((F.desk st).merged answer st.manager).queue result.1.queue :=
  h.of_merged (fun _ s key hq => hq.setSharedSpotKey s key) (.refl t _)

/-- And over its tick. -/
theorem ManagerStep.carried_settled (h : F.ManagerStep i op answer clock st result) (t : Time)
    (source : SessionRef → Time) :
    Carried t ((F.desk st).merged answer st.manager).queue
      (settled st source answer result).endpoint.queue := by
  unfold settled
  split
  · exact (h.carried t).tick _ _
  · exact h.carried t

/-- Every step keeps the sessions under the names they are known by. -/
theorem named_step {l : Op × Time} (h : F.step l = some F')
    (hF : ∀ st ∈ F.stations, Named st.endpoint.queue) :
    ∀ st ∈ F'.stations, Named st.endpoint.queue := by
  refine stations_step (J := fun _ st => Named st.endpoint.queue) ?_ ?_ ?_ h hF
  · exact fun _ _ _ _ hst => hst
  · exact fun i op st E _ hstep hst => hst.carried hstep.carried
  · intro i answer st result hstep hst
    have hmerged : Named ((F.desk st).merged answer st.manager).queue :=
      Desk.merged_queue (D := F.desk st) (fun _ s data pending reported hq =>
        hq.modify (Session.report_proj Session.name (fun _ _ _ _ => rfl) data pending reported) s)
      hst _
    exact hmerged.carried (hstep.carried_settled F.clock _)

theorem filed_of_run {cfgs : List EndpointConfig} {pollers : OrdDict String Poller} {clock : Time}
    {ls : List (Op × Time)} (h : Run (Steps step Any) (init cfgs pollers clock) ls F) :
    ∀ st ∈ F.stations, EndpointQueue.Filed st.endpoint.queue := by
  have horderly : ∀ st ∈ F.stations, Orderly F.clock st :=
    h.invariant (I := fun F => ∀ st ∈ F.stations, Orderly F.clock st)
      (fun F l F' hF hstep => orderly_step hstep.1 hF) (orderly_init cfgs pollers clock)
  intro st hst
  obtain ⟨cfg, hbalanced⟩ := (horderly st hst).balanced
  exact hbalanced.filed

theorem named_of_run {cfgs : List EndpointConfig} {pollers : OrdDict String Poller} {clock : Time}
    {ls : List (Op × Time)} (h : Run (Steps step Any) (init cfgs pollers clock) ls F) :
    ∀ st ∈ F.stations, Named st.endpoint.queue := by
  refine h.invariant (I := fun F => ∀ st ∈ F.stations, Named st.endpoint.queue) ?_ ?_
  · exact fun F l F' hF hstep => named_step hstep.1 hF
  · intro st hst
    obtain ⟨cfg, -, rfl⟩ := List.mem_map.mp hst
    exact .init _

end Fleet

end Relay
