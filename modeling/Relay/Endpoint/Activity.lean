import Mathlib.Data.List.Perm.Basic
import Relay.Endpoint.Balance

/-!
# Relay.Endpoint.Activity

**Is a busy server seen to be busy?** `has_activity` looks at the queue, the spots and
`active_forwards`. An admission that awaits its readiness probe, the power-on, the endpoint's
readiness or the store is in none of them, and a request or connection in flight is seen through
a spot it need not hold itself. Such an admission is seen through something else of the server,
or not at all.

So a request that comes to a server without activity is not seen, and an admission that is seen
through something else is seen only as long as that stays. `KeepsActivityAt` says so of one step,
by what the state before it has and what the step takes away; `active_of_run` shows that there is
no other gap.
-/

namespace Relay

open Runs

namespace EndpointQueue

variable {q q' : EndpointQueue} {e : EntryRef} {s : SessionRef} {key : Key} {now : Time}

/-! ### What keeps a queue active -/

/-- Something is queued, or a spot is held. -/
def Active (q : EndpointQueue) : Prop := q.queue ≠ [] ∨ q.spots.size ≠ 0

instance (q : EndpointQueue) : Decidable q.Active := inferInstanceAs (Decidable (_ ∨ _))

theorem hasActivity_iff (q : EndpointQueue) : q.hasActivity = true ↔ q.Active := by
  simp [hasActivity, Active]

/-- Without the spot of `key` nothing is left that keeps the queue active. -/
def LastSpot (q : EndpointQueue) (key : Key) : Prop := q.queue = [] ∧ (q.spots.erase key).size = 0

instance (q : EndpointQueue) (key : Key) : Decidable (q.LastSpot key) :=
  inferInstanceAs (Decidable (_ ∧ _))

/-- The spots a managed operation surrenders, each with the state it is surrendered in. -/
def surrendered (q : EndpointQueue) : QueueOp → List (EndpointQueue × Key)
  | .tick now promoteAt =>
      ((q.visits now promoteAt).filter (fun v => v.1.surrenders v.2.2 now)).map
        (fun v => (v.1, v.2.1))
  | .releaseSession client sessionId _ =>
      if (q.sessions.get? (client, sessionId)).any (fun s => (q.objs s).spotHeld) then
        [(q, (client, sessionId))]
      else []
  | _ => []

theorem active_congr (hqueue : q'.queue = q.queue) (hspots : q'.spots = q.spots) :
    q'.Active ↔ q.Active := by
  rw [Active, Active, hqueue, hspots]

/-- A promoted request runs on a spot. -/
theorem active_promote (q : EndpointQueue) (now : Time) (e : EntryRef) :
    (q.promote now e).Active := by
  refine Or.inr ?_
  rw [promote_spots]
  split
  · exact OrdDict.size_ne_zero_of_mem (OrdDict.mem_insert.mpr (Or.inl rfl))
  · rename_i hacq
    have hsome : q.spotKey (q.objs (q.sessionOf e)) ≠ none := by simpa [acquires] using hacq
    obtain ⟨k, hk⟩ := Option.ne_none_iff_exists'.mp hsome
    exact OrdDict.size_ne_zero_of_mem (mem_spots_of_spotKey hk)

/-- What leaves the queue in `_try_promote` goes to a spot. -/
theorem active_tryPromote (q : EndpointQueue) (now : Time) :
    (q.tryPromote now).Active ↔ q.Active := by
  constructor
  · contrapose!
    refine tryPromote_induction (I := fun q => ¬ q.Active) fun q e hq hselected => ?_
    exact absurd (Or.inl (List.ne_nil_of_mem (List.mem_of_find?_eq_some hselected.2))) hq
  · exact tryPromote_induction (I := Active) fun q e _ _ => active_promote q now e

theorem active_freeSpot (q : EndpointQueue) (s : SessionRef) (key : Key) :
    (q.freeSpot s key).Active ↔ ¬ q.LastSpot key := by
  rw [LastSpot, not_and_or]
  exact Iff.rfl

theorem active_releaseSpot (q : EndpointQueue) (s : SessionRef) (key : Key) (now : Time) :
    (q.releaseSpot s key now).Active ↔ ¬ q.LastSpot key :=
  (active_tryPromote _ now).trans (active_freeSpot q s key)

theorem lastSpot_of_not_active (h : ¬ q.Active) (key : Key) : q.LastSpot key := by
  obtain ⟨hqueue, hspots⟩ := not_or.mp h
  exact ⟨not_not.mp hqueue, Nat.le_zero.mp (not_not.mp hspots ▸ q.spots.size_erase_le key)⟩

/-- One turn of the loop of `tick`. -/
theorem active_visit (q : EndpointQueue) (now promoteAt : Time) (key : Key) (s : SessionRef) :
    (q.visit now promoteAt key s).1.Active ↔
      q.Active ∧ (q.surrenders s now = true → ¬ q.LastSpot key) := by
  rcases visit_cases q now promoteAt key s with ⟨hsur, heq⟩ | ⟨hsur, -, -, -, heq⟩ | ⟨hsur, -, heq⟩
  · rw [heq]
    refine (active_releaseSpot (q.recomputeAt s now) s key promoteAt).trans ⟨fun h => ?_, ?_⟩
    · exact ⟨not_not.mp fun hidle => h (lastSpot_of_not_active hidle key), fun _ => h⟩
    · exact fun h => h.2 hsur
  · rw [heq]
    refine (active_congr rfl rfl).trans (iff_self_and.mpr fun _ h => ?_)
    exact absurd h (by simp [hsur])
  · rw [heq]
    refine (active_congr rfl rfl).trans (iff_self_and.mpr fun _ h => ?_)
    exact absurd h (by simp [hsur])

/-- The loop of `tick`: what is surrendered last ends the activity, if anything does. -/
theorem active_tickLoop (now : Time) (promoteAt : Key → Time) (q : EndpointQueue)
    (rest : List (Key × SessionRef)) :
    (tickLoop now promoteAt q rest).1.Active ↔ q.Active ∧
      ∀ v ∈ visitsOf now promoteAt q rest, v.1.surrenders v.2.2 now = true →
        ¬ v.1.LastSpot v.2.1 := by
  induction rest generalizing q with
  | nil => simp [tickLoop, visitsOf]
  | cons p rest ih =>
      obtain ⟨key, s⟩ := p
      refine (ih (q.visit now (promoteAt key) key s).1).trans ?_
      rw [active_visit, visitsOf, List.forall_mem_cons, and_assoc]

/-- A managed operation ends the activity of a queue only with its last spot. -/
theorem active_step {op : QueueOp} (hop : op.isManaged = true) (hstep : q.step op = some q') :
    q'.Active ↔ q.Active ∧ ∀ p ∈ q.surrendered op, ¬ p.1.LastSpot p.2 := by
  have hnone : ∀ {r : EndpointQueue}, (r.Active ↔ q.Active) → q.surrendered op = [] →
      (r.Active ↔ q.Active ∧ ∀ p ∈ q.surrendered op, ¬ p.1.LastSpot p.2) := by
    intro r hr hno
    simpa [hno] using hr
  cases op with
  | admitQueued r path sessionAt queuedAt promoteAt => exact absurd hop Bool.false_ne_true
  | abandon e => exact absurd hop Bool.false_ne_true
  | release e now promoteAt => exact absurd hop Bool.false_ne_true
  | releaseSession client sessionId promoteAt =>
      obtain rfl := Option.some.inj hstep
      rcases releaseSession_cases q client sessionId promoteAt with
        ⟨s, hs, hheld, heq⟩ | ⟨hno, heq⟩
      · rw [heq]
        have hsur : q.surrendered (.releaseSession client sessionId promoteAt) =
            [(q, (client, sessionId))] := by simp [surrendered, hs, hheld]
        refine (active_releaseSpot q s _ promoteAt).trans ?_
        rw [hsur, List.forall_mem_singleton]
        refine (and_iff_right_of_imp fun h => ?_).symm
        exact not_not.mp fun hidle => h (lastSpot_of_not_active hidle _)
      · rw [heq]
        refine hnone Iff.rfl ?_
        cases hs : q.sessions.get? (client, sessionId) with
        | none => simp [surrendered, hs]
        | some s => simp [surrendered, hs, hno s hs]
  | tick now promoteAt =>
      obtain rfl := Option.some.inj hstep
      refine (active_tickLoop now promoteAt q q.sessions.entries).trans
        (and_congr_right fun _ => ?_)
      simp only [surrendered, visits, List.forall_mem_map, List.mem_filter, and_imp]
  | setReady ready =>
      obtain rfl := Option.some.inj hstep
      exact hnone (active_congr rfl rfl) rfl
  | tryPromote now =>
      obtain rfl := Option.some.inj hstep
      exact hnone (active_tryPromote q now) rfl
  | setClientStatus s status detail at' =>
      obtain ⟨-, hq'⟩ := Option.ite_none_right_eq_some.mp hstep
      obtain rfl := Option.some.inj hq'
      exact hnone (active_congr rfl rfl) rfl
  | setSharedSpotKey s key =>
      obtain ⟨-, hq'⟩ := Option.ite_none_right_eq_some.mp hstep
      obtain rfl := Option.some.inj hq'
      exact hnone (active_congr rfl rfl) rfl

/-! ### Admissions -/

theorem active_getOrCreateSession (q : EndpointQueue) (r : Requester) (now : Time) :
    (q.getOrCreateSession r now).2.Active ↔ q.Active := by
  unfold getOrCreateSession
  split <;> exact active_congr rfl rfl

theorem active_enqueue (q : EndpointQueue) (e : EntryRef) (now : Time) :
    (q.enqueue e now).Active :=
  (active_tryPromote _ now).mpr (Or.inl (by simp [append]))

theorem active_release (q : EndpointQueue) (e : EntryRef) (now promoteAt : Time) :
    (q.release e now promoteAt).Active ↔ q.Active :=
  (active_tryPromote _ promoteAt).trans (active_congr rfl rfl)

/-- The last entry that gives up ends the activity of a queue without spots. -/
theorem active_abandon (he : e ∈ q.queue) (hdone : (q.entries e).done = false) :
    (q.abandon e).Active ↔ ¬ (q.queue = [e] ∧ q.spots.size = 0) := by
  have hqueue : (q.abandon e).queue = q.queue.erase e := by simp [abandon, hdone]
  have hspots : (q.abandon e).spots = q.spots := by simp [abandon, hdone]
  rw [Active, hqueue, hspots, not_and_or, Ne, List.erase_eq_nil_iff]
  simp [List.ne_nil_of_mem he]

/-- A connection that is given a spot finds one held afterwards. -/
theorem active_holdWsSpot (hhold : q.holdWsSpot s now = some q') : q'.Active := by
  refine Or.inr ?_
  rcases holdWsSpot_cases hhold with ⟨hsome, rfl⟩ | ⟨-, -, rfl⟩
  · obtain ⟨k, hk⟩ := Option.isSome_iff_exists.mp hsome
    exact OrdDict.size_ne_zero_of_mem (mem_spots_of_spotKey (q := q) hk)
  · exact OrdDict.size_ne_zero_of_mem (k := (q.objs s).key)
      (OrdDict.mem_insert.mpr (Or.inl rfl))

/-- The end of a connection takes the spot of its session, if that holds one. -/
theorem active_releaseWsSpot (q : EndpointQueue) (s : SessionRef) (now : Time) :
    (q.releaseWsSpot s now).Active ↔
      q.Active ∧ ¬ ((q.objs s).key ∈ q.spots ∧ q.LastSpot (q.objs s).key) := by
  have hkey : ((q.endWs s).objs s).key = (q.objs s).key := by
    rw [endWs_objs]
    exact Heap.modify_proj Session.key _ _ Session.disconnected (fun _ => rfl) s
  rcases releaseWsSpot_cases q s now with ⟨hmem, heq⟩ | ⟨hnot, heq⟩
  · rw [heq, active_tryPromote]
    have hdrop : ((q.endWs s).dropSpot s).Active ↔ ¬ q.LastSpot (q.objs s).key := by
      rw [LastSpot, not_and_or, ← hkey]
      exact Iff.rfl
    have hactive : q.Active := Or.inr (OrdDict.size_ne_zero_of_mem hmem)
    rw [hdrop]
    simp [hactive, hmem]
  · rw [heq]
    refine (active_congr rfl rfl).trans (iff_self_and.mpr fun _ h => hnot h.1)

end EndpointQueue

/-- The admission has not finished: it awaits something, or is in flight. -/
def Phase.isUnfinished : Phase → Bool
  | .ended _ => false
  | _ => true

namespace Endpoint

open EndpointQueue (Active)

variable {E E' : Endpoint} {cfg : EndpointConfig} {t : Task} {i : Nat} {q : EndpointQueue}
  {a : Int} {phase : Phase}

/-! ### What keeps an endpoint active -/

/-- The tasks that count in `active_forwards`. -/
def unqueued (E : Endpoint) : Nat := E.countPhase Phase.isUnqueued

/-- Something of the endpoint is counted: an entry in the queue, a spot, or a request or
connection that is served without them. -/
def Counted (E : Endpoint) : Prop := E.queue.Active ∨ E.unqueued ≠ 0

instance (E : Endpoint) : Decidable E.Counted := inferInstanceAs (Decidable (_ ∨ _))

theorem hasActivity_iff (h : Balanced cfg E) : E.hasActivity = true ↔ E.Counted := by
  have hactive : E.activeForwards = E.unqueued := h.active_eq
  rw [Endpoint.hasActivity, Bool.or_eq_true_iff, EndpointQueue.hasActivity_iff, Counted, hactive,
    decide_eq_true_iff]
  exact or_congr_right (by omega)

/-- A task in the phase is all that is counted of the endpoint. -/
def LastCounted (E : Endpoint) : Phase → Prop
  | .polling e => (E.queue.queue = [e] ∧ E.queue.spots.size = 0) ∧ E.unqueued = 0
  | .tunnel s => ((E.queue.objs s).key ∈ E.queue.spots ∧ E.queue.LastSpot (E.queue.objs s).key) ∧
      E.unqueued = 0
  | .forwardingUnqueued | .tunnelUnqueued => ¬ E.queue.Active ∧ E.unqueued = 1
  | _ => False

/-- The admission ends, and nothing that is counted is left. -/
def EndsLast (E : Endpoint) (i : Nat) (input : Input) : Prop :=
  ∃ t ∈ E.tasks[i]?, E.LastCounted t.phase ∧ ∃ result ∈ E.run t input,
    result.2.isUnfinished = false

/-- The last spot is surrendered, and nothing that is counted is left. -/
def SurrendersLast (E : Endpoint) (op : QueueOp) : Prop :=
  (∃ p ∈ E.queue.surrendered op, p.1.LastSpot p.2) ∧ E.unqueued = 0

/-- The step takes away the last thing that is counted. -/
def TakesLast (E : Endpoint) : Op → Prop
  | .arrive _ => False
  | .resume i input => E.EndsLast i input
  | .manage op => E.SurrendersLast op

instance (E : Endpoint) : (phase : Phase) → Decidable (E.LastCounted phase)
  | .polling _ | .tunnel _ => inferInstanceAs (Decidable ((_ ∧ _) ∧ _))
  | .forwardingUnqueued | .tunnelUnqueued => inferInstanceAs (Decidable (¬ E.queue.Active ∧ _))
  | .arrived | .probing | .waking | .recording _ | .sleeping _ | .forwarding _ | .readyPolling _
  | .readySleeping _ | .wsReadyWaiting _ | .spotWaiting _ _ | .ended _ =>
      inferInstanceAs (Decidable False)

instance (E : Endpoint) (i : Nat) (input : Input) : Decidable (E.EndsLast i input) :=
  inferInstanceAs (Decidable (∃ t ∈ E.tasks[i]?, _ ∧ ∃ result ∈ E.run t input, _))

instance (E : Endpoint) (op : QueueOp) : Decidable (E.SurrendersLast op) :=
  inferInstanceAs (Decidable ((∃ p ∈ E.queue.surrendered op, _) ∧ _))

theorem not_lastCounted_of_isIdle (hidle : phase.isIdle = true) : ¬ E.LastCounted phase := by
  cases phase <;> first | exact id | exact absurd hidle Bool.false_ne_true

/-! ### Steps of an endpoint -/

theorem unqueued_advance (ht : E.tasks[i]? = some t) :
    (E.advance i t q a phase).unqueued + (if t.phase.isUnqueued then 1 else 0) =
      E.unqueued + if phase.isUnqueued then 1 else 0 :=
  countPhase_advance ht Phase.isUnqueued

/-- One pass of the loop of `_hold_ws_spot` leaves an active queue active. -/
theorem active_pass {s : SessionRef} {q' : EndpointQueue} (hpass : SpotPass q s q' phase)
    (hactive : q.Active) : q'.Active := by
  cases hpass with
  | granted hhold => exact EndpointQueue.active_holdWsSpot hhold
  | refused => exact hactive
  | waits _ => exact hactive

/-- The queue stays active, and nothing that `active_forwards` counts ends. -/
theorem Counted.advance (h : E.Counted) (ht : E.tasks[i]? = some t)
    (hactive : E.queue.Active → q.Active) (hun : t.phase.isUnqueued = false) :
    (E.advance i t q a phase).Counted := by
  have hunqueued : (E.advance i t q a phase).unqueued + _ = _ := unqueued_advance ht
  rw [hun] at hunqueued
  simp only [Bool.false_eq_true, if_false] at hunqueued
  exact h.imp hactive fun hne => by omega

/-- A task moves that `active_forwards` does not count. -/
theorem counted_advance_iff (ht : E.tasks[i]? = some t) (hun : t.phase.isUnqueued = false)
    (hnot : phase.isUnqueued = false) :
    (E.advance i t q a phase).Counted ↔ q.Active ∨ E.unqueued ≠ 0 := by
  have hunqueued : (E.advance i t q a phase).unqueued + _ = _ := unqueued_advance ht
  rw [hun, hnot] at hunqueued
  simp only [Bool.false_eq_true, if_false] at hunqueued
  exact or_congr_right (by omega)

/-- A forward or tunnel ends that `active_forwards` counts. -/
theorem counted_ends_iff (ht : E.tasks[i]? = some t) (hun : t.phase.isUnqueued = true)
    (hnot : phase.isUnqueued = false) :
    (E.advance i t E.queue a phase).Counted ↔ ¬ (¬ E.queue.Active ∧ E.unqueued = 1) := by
  have hunqueued : (E.advance i t E.queue a phase).unqueued + _ = _ := unqueued_advance ht
  rw [hun, hnot] at hunqueued
  simp only [if_true, Bool.false_eq_true, if_false] at hunqueued
  rw [not_and_or, not_not]
  exact or_congr_right (by omega)

/-- A task that runs on leaves a counted endpoint counted, unless it ends and was all there
was. -/
theorem counted_move (hbalanced : Balanced cfg E) (ht : E.tasks[i]? = some t)
    (hcounted : E.Counted) (hmove : Move E t q a phase) :
    (E.advance i t q a phase).Counted ↔
      ¬ (E.LastCounted t.phase ∧ phase.isUnfinished = false) := by
  have hmem := List.mem_of_getElem? ht
  have hkeeps : (E.queue.Active → q.Active) → t.phase.isUnqueued = false →
      ¬ E.LastCounted t.phase → ((E.advance i t q a phase).Counted ↔
        ¬ (E.LastCounted t.phase ∧ phase.isUnfinished = false)) :=
    fun hactive hun hlast => iff_of_true (hcounted.advance ht hactive hun) fun h => hlast h.1
  have hidle : t.phase.isIdle = true → (E.queue.Active → q.Active) →
      ((E.advance i t q a phase).Counted ↔
        ¬ (E.LastCounted t.phase ∧ phase.isUnfinished = false)) := fun hidle hactive =>
    hkeeps hactive (Phase.isIdle.isUnqueued hidle) (not_lastCounted_of_isIdle hidle)
  cases hmove with
  | idle h _ => exact hidle h id
  | begin h => exact hidle h (EndpointQueue.active_getOrCreateSession _ _ _).mpr
  | fail h => exact hkeeps id (by rw [h]; rfl) (by rw [h]; exact id)
  | join h _ =>
      exact hkeeps (fun _ => EndpointQueue.active_enqueue _ _ _) (by rw [h]; rfl)
        (by rw [h]; exact id)
  | head h => exact hkeeps id (by rw [h]; rfl) (by rw [h]; exact id)
  | sleep h =>
      exact iff_of_true (hcounted.advance ht id (by rw [h]; rfl)) fun h =>
        absurd h.2 Bool.noConfusion
  | @abandon e reply h hdone hreply =>
      have hreplied : (Phase.ended reply).isUnqueued = false := by
        rcases hreply with rfl | rfl <;> rfl
      have he : e ∈ E.queue.queue := hbalanced.steady.mem_queue_of_not_done
        (isOpen_of_mem hbalanced.owners_eq hmem (by rw [h]; rfl)) hdone
      rw [counted_advance_iff ht (by rw [h]; rfl) hreplied,
        EndpointQueue.active_abandon he hdone, h]
      simp only [LastCounted, Phase.isUnfinished, and_true, not_and_or]
  | @leave e reply now promoteAt h hdone hreply =>
      refine hkeeps (EndpointQueue.active_release _ _ _ _).mpr (by rw [h]; rfl) ?_
      rw [h]
      rintro ⟨⟨hqueue, -⟩, -⟩
      -- an entry that was promoted is not in the queue
      have hwaits := (hbalanced.accounts.queue_done e (hqueue ▸ List.mem_singleton_self e)).2
      exact Bool.false_ne_true (hwaits.symm.trans hdone)
  | finish h =>
      exact hkeeps (EndpointQueue.active_release _ _ _ _).mpr (by rw [h]; rfl)
        (by rw [h]; exact id)
  | forward h hphase =>
      refine iff_of_true (Or.inr ?_) fun hlast => not_lastCounted_of_isIdle h hlast.1
      have hone : phase.isUnqueued = true := by rcases hphase with rfl | rfl | rfl <;> rfl
      have hunqueued : (E.advance i t E.queue (E.activeForwards + 1) phase).unqueued + _ = _ :=
        unqueued_advance ht
      rw [Phase.isIdle.isUnqueued h, hone] at hunqueued
      simp only [Bool.false_eq_true, if_false, if_true] at hunqueued
      omega
  | finishForward h =>
      rw [counted_ends_iff ht (by rw [h]; rfl) rfl, h]
      simp only [LastCounted, Phase.isUnfinished, and_true]
  | finishTunnel h =>
      rw [counted_ends_iff ht (by rw [h]; rfl) rfl, h]
      simp only [LastCounted, Phase.isUnfinished, and_true]
  | connect h hpass =>
      exact hidle h fun hactive =>
        active_pass hpass ((EndpointQueue.active_getOrCreateSession _ _ _).mpr hactive)
  | retry h hpass =>
      exact hkeeps (active_pass hpass) (by rw [h]; rfl) (by rw [h]; exact id)
  | @disconnect s promoteAt h =>
      rw [counted_advance_iff ht (by rw [h]; rfl) rfl, EndpointQueue.active_releaseWsSpot, h]
      simp only [LastCounted, Phase.isUnfinished, and_true]
      rw [and_or_right]
      exact (and_iff_right hcounted).trans not_and_or.symm

/-- A step leaves a counted endpoint counted, unless it takes away the last thing that is
counted. -/
theorem counted_step (hbalanced : Balanced cfg E) (hcounted : E.Counted) {op : Op}
    (hstep : E.step op = some E') : E'.Counted ↔ ¬ E.TakesLast op := by
  rcases step_cases hstep with ⟨request, rfl, rfl⟩ |
    ⟨i, input, t, q, a, phase, rfl, ht, hmove, hrun, rfl⟩ | ⟨qop, q, rfl, hmanaged, hqstep, rfl⟩
  · refine iff_of_true (hcounted.imp_right fun hne => ?_) id
    rwa [unqueued, countPhase_arrive _ rfl]
  · rw [counted_move hbalanced ht hcounted hmove]
    simp [TakesLast, EndsLast, ht, hrun]
  · have hactive := EndpointQueue.active_step hmanaged hqstep
    show q.Active ∨ E.unqueued ≠ 0 ↔ _
    rw [hactive, and_or_right]
    refine (and_iff_right hcounted).trans ?_
    show _ ↔ ¬ E.SurrendersLast qop
    unfold SurrendersLast
    rw [not_and_or]
    exact or_congr_left (by simp only [not_exists, not_and])

end Endpoint

/-! ### The endpoints of a server -/

/-- `ServerRuntime.has_activity`. -/
def ServerRuntime.hasActivity (endpoints : List Endpoint) : Bool :=
  endpoints.any Endpoint.hasActivity

namespace Endpoint

variable {endpoints endpoints' : List Endpoint} {E E' : Endpoint} {cfg : EndpointConfig} {t : Task}
  {i : Nat} {q : EndpointQueue} {a : Int} {phase : Phase}

/-- While an admission of the server has not finished, the server has activity. -/
def Seen (endpoints : List Endpoint) : Prop :=
  ∀ E ∈ endpoints, ∀ t ∈ E.tasks, t.phase.isUnfinished = true →
    ServerRuntime.hasActivity endpoints = true

/-- The admissions of the server that have not finished. -/
def unfinished (endpoints : List Endpoint) : Nat :=
  (endpoints.map (fun E => E.countPhase Phase.isUnfinished)).sum

/-- The step leaves no admission without something that is counted: a request arrives while
something is, and what is counted last is taken away only when no other admission of the server
is unfinished. -/
def KeepsActivity (endpoints : List Endpoint) (op : Nat × Op) : Prop :=
  match op.2 with
  | .arrive _ => ∃ E ∈ endpoints, E.Counted
  | .resume i input => (∃ E ∈ endpoints[op.1]?, E.EndsLast i input) →
      (∃ E ∈ endpoints.eraseIdx op.1, E.Counted) ∨ unfinished endpoints = 1
  | .manage qop => (∃ E ∈ endpoints[op.1]?, E.SurrendersLast qop) →
      (∃ E ∈ endpoints.eraseIdx op.1, E.Counted) ∨ unfinished endpoints = 0

instance (endpoints : List Endpoint) : (op : Nat × Op) → Decidable (KeepsActivity endpoints op)
  | (_, .arrive _) => inferInstanceAs (Decidable (∃ E ∈ endpoints, E.Counted))
  | (n, .resume i input) =>
      inferInstanceAs (Decidable ((∃ E ∈ endpoints[n]?, E.EndsLast i input) → _ ∨ _))
  | (n, .manage qop) =>
      inferInstanceAs (Decidable ((∃ E ∈ endpoints[n]?, E.SurrendersLast qop) → _ ∨ _))

/-- All endpoints of a server are balanced. -/
def AllBalanced (endpoints : List Endpoint) : Prop := ∀ E ∈ endpoints, ∃ cfg, Balanced cfg E

theorem hasActivity_server_iff (h : AllBalanced endpoints) :
    ServerRuntime.hasActivity endpoints = true ↔ ∃ E ∈ endpoints, E.Counted := by
  rw [ServerRuntime.hasActivity, List.any_eq_true]
  refine exists_congr fun E => and_congr_right fun hE => ?_
  obtain ⟨cfg, hbalanced⟩ := h E hE
  exact hasActivity_iff hbalanced

theorem unfinished_pos (hE : E ∈ endpoints) (ht : t ∈ E.tasks)
    (hunfinished : t.phase.isUnfinished = true) : 0 < unfinished endpoints := by
  have hpos : 0 < E.countPhase Phase.isUnfinished := List.countP_pos_iff.mpr ⟨t, ht, hunfinished⟩
  exact Nat.lt_of_lt_of_le hpos (List.single_le_sum (by simp) _ (List.mem_map_of_mem hE))

theorem seen_iff (h : AllBalanced endpoints) :
    Seen endpoints ↔ unfinished endpoints = 0 ∨ ∃ E ∈ endpoints, E.Counted := by
  rw [← hasActivity_server_iff h]
  constructor
  · intro hseen
    refine or_iff_not_imp_right.mpr fun hidle => List.sum_eq_zero fun n hn => ?_
    obtain ⟨E, hE, rfl⟩ := List.mem_map.mp hn
    exact List.countP_eq_zero.mpr fun t ht hunfinished => hidle (hseen E hE t ht hunfinished)
  · rintro (hnone | hactive) E hE t ht hunfinished
    · exact absurd hnone (Nat.ne_of_gt (unfinished_pos hE ht hunfinished))
    · exact hactive

/-- What one of several components has, and the others have. -/
theorem exists_set_iff {P : Endpoint → Prop} {n : Nat} (hn : n < endpoints.length)
    (E' : Endpoint) :
    (∃ E ∈ endpoints.set n E', P E) ↔ P E' ∨ ∃ E ∈ endpoints.eraseIdx n, P E := by
  have hperm := List.set_perm_cons_eraseIdx hn E'
  simp only [hperm.mem_iff, List.exists_mem_cons_iff]

theorem unfinished_set {n : Nat} (hE : endpoints[n]? = some E) (E' : Endpoint) :
    unfinished (endpoints.set n E') + E.countPhase Phase.isUnfinished =
      unfinished endpoints + E'.countPhase Phase.isUnfinished := by
  obtain ⟨hn, rfl⟩ := List.getElem?_eq_some_iff.mp hE
  have hnew := ((List.set_perm_cons_eraseIdx hn E').map
    (fun E => E.countPhase Phase.isUnfinished)).sum_eq
  have hold := ((List.getElem_cons_eraseIdx_perm hn).map
    (fun E => E.countPhase Phase.isUnfinished)).sum_eq
  simp only [List.map_cons, List.sum_cons] at hnew hold
  unfold unfinished
  omega

/-- What goes on has not finished. -/
theorem run_isUnfinished {input : Input} {result : Step} (h : E.run t input = some result) :
    t.phase.isUnfinished = true := by
  cases hphase : t.phase with
  | ended reply => simp [run, hphase] at h
  | _ => rfl

theorem countPhase_isUnfinished_arrive (E : Endpoint) (request : Request) :
    countPhase { E with tasks := E.tasks ++ [{ request := request }] } Phase.isUnfinished =
      E.countPhase Phase.isUnfinished + 1 := by
  simp [countPhase, List.countP_append, Phase.isUnfinished]

/-- What is taken away last may be missed when the others are counted, or nothing is left that
has to be. -/
theorem seen_iff_keeps {counted counted' last others none : Prop}
    (hseen : none ∨ counted ∨ others) (hcounted : counted → (counted' ↔ ¬ last)) :
    (none ∨ counted' ∨ others) ↔ (last → others ∨ none) := by
  rcases hseen with hnone | hcount | hothers
  · exact iff_of_true (Or.inl hnone) fun _ => Or.inr hnone
  · rw [hcounted hcount, imp_iff_not_or, or_comm (a := none), or_assoc]
  · exact iff_of_true (Or.inr (Or.inr hothers)) fun _ => Or.inl hothers

/-- **One step.** While every unfinished admission is seen, a step keeps it so exactly when it
leaves none without something that is counted. -/
theorem seen_step (hall : AllBalanced endpoints) (hall' : AllBalanced endpoints')
    (hseen : Seen endpoints) {op : Nat × Op} (hstep : stepAt step endpoints op = some endpoints') :
    Seen endpoints' ↔ KeepsActivity endpoints op := by
  obtain ⟨n, op⟩ := op
  obtain ⟨E, E', hE, hE', rfl⟩ := stepAt_eq_some hstep
  dsimp only at hE hE' hall' ⊢
  obtain ⟨hn, hself⟩ := List.getElem?_eq_some_iff.mp hE
  obtain ⟨cfg, hbalanced⟩ := hall E (List.mem_of_getElem? hE)
  have hbefore : (∃ E ∈ endpoints, E.Counted) ↔
      E.Counted ∨ ∃ E ∈ endpoints.eraseIdx n, E.Counted := by
    have hset := exists_set_iff (P := Counted) hn E
    rwa [← hself, List.set_getElem_self, hself] at hset
  have hset := unfinished_set hE E'
  have hcounted := fun hcounted => counted_step hbalanced hcounted hE'
  rw [seen_iff hall, hbefore] at hseen
  rw [seen_iff hall', exists_set_iff hn]
  rcases step_cases hE' with ⟨request, rfl, rfl⟩ |
    ⟨i, input, t, q, a, phase, rfl, ht, -, hrun, rfl⟩ | ⟨qop, q, rfl, -, -, rfl⟩
  · have hsame : Counted { E with tasks := E.tasks ++ [{ request := request }] } ↔ E.Counted := by
      rw [Counted, Counted, unqueued, countPhase_arrive _ rfl]
      rfl
    rw [countPhase_isUnfinished_arrive] at hset
    rw [hsame, ← hbefore]
    exact or_iff_right (by omega)
  · have hpos := unfinished_pos (List.mem_of_getElem? hE) (List.mem_of_getElem? ht)
      (run_isUnfinished hrun)
    have hone : (E.advance i t q a phase).countPhase Phase.isUnfinished +
        (if t.phase.isUnfinished then 1 else 0) =
          E.countPhase Phase.isUnfinished + if phase.isUnfinished then 1 else 0 :=
      countPhase_advance ht Phase.isUnfinished
    rw [run_isUnfinished hrun, if_pos rfl] at hone
    have hgap : KeepsActivity endpoints (n, .resume i input) ↔ (E.EndsLast i input →
        (∃ E ∈ endpoints.eraseIdx n, E.Counted) ∨
          unfinished (endpoints.set n (E.advance i t q a phase)) = 0) := by
      simp only [KeepsActivity, hE, Option.mem_some_iff, exists_eq_left']
      refine imp_congr_right ?_
      rintro ⟨t', ht', -, result, hresult, hends⟩
      obtain rfl := Option.some.inj (ht.symm.trans ht')
      obtain rfl := Option.some.inj (hrun.symm.trans hresult)
      -- the admission that ends is the one that is left
      rw [hends] at hone
      simp only [Bool.false_eq_true, if_false] at hone
      exact or_congr_right (by omega)
    rw [hgap]
    exact seen_iff_keeps (Or.inr (hseen.resolve_left (Nat.ne_of_gt hpos))) hcounted
  · have hsame : unfinished (endpoints.set n { E with queue := q }) = unfinished endpoints :=
      Nat.add_right_cancel hset
    have hgap : KeepsActivity endpoints (n, .manage qop) ↔ (E.SurrendersLast qop →
        (∃ E ∈ endpoints.eraseIdx n, E.Counted) ∨ unfinished endpoints = 0) := by
      simp only [KeepsActivity, hE, Option.mem_some_iff, exists_eq_left']
    rw [hgap, hsame]
    exact seen_iff_keeps hseen hcounted

/-- **A busy server is seen to be busy, and when.** Let every unfinished admission of a server be
seen in a state that is reached. In a run from there `has_activity` is true in every state in
which an admitted request or connection has not finished, exactly when every request arrives while
something of the server is counted, and no step takes away the last thing that is counted while
another admission is unfinished. -/
theorem active_of_run {cfgs : List EndpointConfig} {ops₀ ops : List (Nat × Op)}
    (hreached : Run (Steps (stepAt step) Any) (cfgs.map Endpoint.init) ops₀ endpoints)
    (hseen : Seen endpoints) (h : Run (Steps (stepAt step) Any) endpoints ops endpoints') :
    (∀ ops₁ endpoints₁, ops₁ <+: ops → exec (stepAt step) endpoints ops₁ = some endpoints₁ →
      Seen endpoints₁) ↔
    Run (Steps (stepAt step) KeepsActivity) endpoints ops endpoints' := by
  have hkeeps : ∀ endpoints op endpoints', AllBalanced endpoints →
      stepAt step endpoints op = some endpoints' → AllBalanced endpoints' :=
    fun endpoints op endpoints' hall hstep => stepAt_preserves
      (fun E op E' ⟨cfg, hbalanced⟩ hE (_ : True) => ⟨cfg, hbalanced.step hE⟩) hstep
      (fun _ _ => trivial) hall
  have hall : AllBalanced endpoints := by
    refine hreached.invariant (I := AllBalanced) (fun s l t hs hst => hkeeps s l t hs hst.1) ?_
    intro E hE
    obtain ⟨cfg, -, rfl⟩ := List.mem_map.mp hE
    exact ⟨cfg, Balanced.init cfg⟩
  exact states_iff hkeeps
    (fun s l t hs hseen hst => seen_step hs (hkeeps s l t hs hst) hseen hst) h hall hseen

/-! ### Runs on fixed inputs -/

/-- An endpoint that forwards its requests without queueing them. -/
def concurrentEndpoint : EndpointConfig where
  waitPolicy := .wait
  routing := .concurrent
  queueTimeout := 0
  queue := EndpointQueue.oneSpot

/-- A request is forwarded without a queue. -/
def oneForwarded : List (Nat × Op) :=
  [(0, .manage (.setReady true)), (1, .manage (.setReady true)),
    (1, .arrive (.ofSession .http "c")), (1, .resume 0 {}), (1, .resume 0 {})]

/-- Meanwhile a request of the other endpoint is queued and runs, its spot is released by hand,
and it ends. -/
def oneQueued : List (Nat × Op) :=
  [(0, .arrive (.ofSession .http "a")), (0, .resume 0 {}), (0, .resume 0 {}), (0, .resume 0 {}),
    (0, .manage (.releaseSession "unknown" "a" 6)), (0, .resume 0 { now := 7 }),
    (1, .resume 0 { now := 8 })]

theorem active_of_run_oneQueued :
    ∃ endpoints endpoints', exec (stepAt step)
        ([.queued EndpointQueue.oneSpot, concurrentEndpoint].map Endpoint.init) oneForwarded =
          some endpoints ∧
      exec (stepAt step) endpoints (oneQueued.take 5) = some endpoints' ∧
      unfinished endpoints' = 2 ∧ Seen endpoints' := by
  have hview : (exec (stepAt step)
      ([.queued EndpointQueue.oneSpot, concurrentEndpoint].map Endpoint.init) oneForwarded).map
      (fun endpoints => (ServerRuntime.hasActivity endpoints,
        (exec (guarded (stepAt step) KeepsActivity) endpoints oneQueued).isSome,
        (exec (stepAt step) endpoints (oneQueued.take 5)).map unfinished)) =
      some (true, true, some 2) := by decide +kernel
  obtain ⟨endpoints, hexec, hview⟩ := Option.map_eq_some_iff.mp hview
  simp only [Prod.mk.injEq] at hview
  obtain ⟨hactive, hkeeps, hunfinished⟩ := hview
  obtain ⟨endpoints', hexec', hunfinished⟩ := Option.map_eq_some_iff.mp hunfinished
  obtain ⟨last, hlast⟩ := Option.isSome_iff_exists.mp hkeeps
  have hrun := run_of_exec_guarded hlast
  exact ⟨endpoints, endpoints', hexec, hexec', hunfinished,
    (active_of_run (run_any_of_exec hexec) (fun _ _ _ _ _ => hactive)
      (run_any_of_exec (exec_of_run hrun))).mpr hrun _ _ (List.take_prefix 5 _) hexec'⟩

/-- The run leaves an admission suspended in the phase, and the server without activity. -/
def Unseen (cfg : EndpointConfig) (ops : List Op) (phase : Phase) : Prop :=
  ∃ endpoints E t, exec (stepAt step) [Endpoint.init cfg] (ops.map fun op => (0, op)) =
      some endpoints ∧ E ∈ endpoints ∧ t ∈ E.tasks ∧ t.phase = phase ∧
    phase.isUnfinished = true ∧ ServerRuntime.hasActivity endpoints = false

theorem unseen_of_view {cfg : EndpointConfig} {ops : List Op} {phase : Phase}
    (h : (exec (stepAt step) [Endpoint.init cfg] (ops.map fun op => (0, op))).map
      (fun endpoints => ((endpoints[0]?).map (fun E => (E.tasks[0]?).map Task.phase),
        ServerRuntime.hasActivity endpoints)) = some (some (some phase), false))
    (hunfinished : phase.isUnfinished = true) : Unseen cfg ops phase := by
  obtain ⟨endpoints, hexec, hview⟩ := Option.map_eq_some_iff.mp h
  obtain ⟨hphase, hactivity⟩ := Prod.mk.inj hview
  obtain ⟨E, hE, hphase⟩ := Option.map_eq_some_iff.mp hphase
  obtain ⟨t, ht, hphase⟩ := Option.map_eq_some_iff.mp hphase
  exact ⟨endpoints, E, t, hexec, List.mem_of_getElem? hE, List.mem_of_getElem? ht, hphase,
    hunfinished, hactivity⟩

/-- The server counts as idle while a request is held for the readiness of an endpoint that does
not queue, while the first request of a ready endpoint awaits its probe or the store, and while
a request runs whose spot is released by hand. -/
theorem active_counterexample :
    Unseen concurrentEndpoint [.arrive (.ofSession .http "a"), .resume 0 {}, .resume 0 {}]
      (.readyPolling none) ∧
    Unseen (.queued EndpointQueue.oneSpot)
      [.manage (.setReady true), .arrive (.ofSession .http "a"), .resume 0 {}] .probing ∧
    Unseen (.queued EndpointQueue.oneSpot)
      [.manage (.setReady true), .arrive (.ofSession .http "a"), .resume 0 {}, .resume 0 {}]
      (.recording 0) ∧
    Unseen (.queued EndpointQueue.oneSpot)
      [.manage (.setReady true), .arrive (.ofSession .http "a"), .resume 0 {}, .resume 0 {},
        .resume 0 {}, .manage (.releaseSession "unknown" "a" 1)] (.forwarding 0) := by
  refine ⟨?_, ?_, ?_, ?_⟩
  · exact unseen_of_view (by decide +kernel) rfl
  · exact unseen_of_view (by decide +kernel) rfl
  · exact unseen_of_view (by decide +kernel) rfl
  · exact unseen_of_view (by decide +kernel) rfl

end Endpoint

end Relay
