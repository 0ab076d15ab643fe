import Relay.Endpoint.Connections
import Relay.Queue.Turns

/-!
# Relay.Endpoint.SpotOrder

**One line for HTTP and WebSockets?** HTTP entries wait for a spot in the queue of the endpoint,
and the promotion loop takes the first of them that may run. WebSockets wait in the loop of
`_hold_ws_spot`, each for itself, and take a free spot when they come by. Neither looks at the
other line, and a WebSocket not at the other WebSockets either.

A `Line` is an endpoint with the order in which all of them have begun to wait, and with the
free spots given so far, each with those who wait for it. `step_granted` says that these are all.
`fair_iff` says when they are given in order: among HTTP entries the promotion loop keeps it
(`InLine.first_eq`), whatever connections do to the spots, and nothing keeps it between an entry
and a connection, or between two connections.
-/

namespace Relay

open Runs

namespace Endpoint

/-! ### What a step of a task does to the line -/

variable {E : Endpoint} {t : Task} {input : Input} {result : Step} {order : List Turn}

/-- The promotions in the step of a task. -/
def promotionsOf (E : Endpoint) (t : Task) (input : Input) : List (EndpointQueue × EntryRef) :=
  match t.phase with
  | .recording s =>
      if input.failed then []
      else
        let made := E.queue.newEntry s t.request.path input.now
        (made.2.append made.1).promotions input.promoteAt
  | .polling e =>
      if (input.disconnected ||
          expired (E.deadlineFrom (E.queue.entries e).enqueuedAt) input.now) &&
          (E.queue.entries e).done then
        (E.queue.finish e input.stampAt).promotions input.promoteAt
      else []
  | .forwarding e => (E.queue.finish e input.stampAt).promotions input.promoteAt
  | .tunnel s =>
      let ended := E.queue.endWs s
      if (ended.objs s).key ∈ ended.spots then (ended.dropSpot s).promotions input.promoteAt
      else []
  | _ => []

/-- The queue in which a connection comes by for a spot. -/
def passQueue (E : Endpoint) (t : Task) (input : Input) : EndpointQueue :=
  match t.phase with
  | .spotWaiting _ _ => E.queue
  | _ => (E.queue.getOrCreateSession t.request.requester input.now).2

/-- The session for which a connection comes by, once the endpoint is ready. -/
def connectsFor (E : Endpoint) (request : Request) (input : Input) : Option SessionRef :=
  if E.queue.ready ∧ E.cfg.routing = .queued ∧ request.kind = .webSocket then
    some (E.queue.getOrCreateSession request.requester input.now).1
  else none

/-- The session for which a task comes by in `_hold_ws_spot`. -/
def passFor (E : Endpoint) (t : Task) (input : Input) : Option SessionRef :=
  match t.phase with
  | .spotWaiting s _ => some s
  | .arrived => if E.queue.queue.isEmpty then none else E.connectsFor t.request input
  | .probing => if input.failed then none else E.connectsFor t.request input
  | .wsReadyWaiting _ => E.connectsFor t.request input
  | _ => none

/-- The session for which a task takes a free spot. -/
def takesFor (E : Endpoint) (t : Task) (input : Input) : Option SessionRef :=
  (E.passFor t input).filter fun s =>
    let q := E.passQueue t input
    q.spotless s && decide (q.spots.size < q.cfg.maxSpots)

/-- What begins to wait in the step of the task `i`. -/
def begins (E : Endpoint) (i : Nat) (t : Task) (input : Input) : List Turn :=
  match t.phase with
  | .recording s => if input.failed then [] else [⟨.entry E.queue.entries.next, s⟩]
  | .spotWaiting _ _ => []
  | _ => (E.passFor t input).toList.map (fun s => ⟨.socket i, s⟩)

/-- The spots that are new were taken for a session of `pass`, in the queue `q`. -/
def TakesFrom (E : Endpoint) (q : EndpointQueue) (pass : Option SessionRef) (result : Step) :
    Prop :=
  ∀ k ∈ result.1.queue.spots, k ∈ E.queue.spots ∨
    ∃ s ∈ pass, q.spotless s = true ∧ q.spots.size < q.cfg.maxSpots ∧ (q.objs s).key = k

theorem takesFrom_of_spots {q : EndpointQueue} {pass : Option SessionRef}
    (h : result.1.queue.spots = E.queue.spots) : TakesFrom E q pass result := fun _ hk =>
  Or.inl (h ▸ hk)

theorem spotHead_takesFrom (E : Endpoint) (s : SessionRef) (deadline : Option Time)
    (input : Input) : TakesFrom E E.queue (some s) (E.spotHead s deadline input) := by
  intro k hk
  unfold spotHead at hk
  cases hhold : E.queue.holdWsSpot s input.promoteAt with
  | some q =>
      simp only [hhold] at hk
      -- a usable spot is shared; only a session without one takes another
      rcases EndpointQueue.holdWsSpot_cases hhold with ⟨-, rfl⟩ | ⟨hnone, hroom, rfl⟩
      · exact Or.inl hk
      · rcases OrdDict.mem_insert.mp hk with rfl | hk
        · exact Or.inr ⟨s, rfl, hnone, hroom, rfl⟩
        · exact Or.inl hk
  | none =>
      simp only [hhold] at hk
      split at hk
      · exact Or.inl hk
      · exact Or.inl hk

theorem connect_takesFrom (hready : E.queue.ready = true) (request : Request) (input : Input) :
    TakesFrom E (E.queue.getOrCreateSession request.requester input.now).2
      (E.connectsFor request input) (E.connect request input) := by
  unfold connect connectsFor
  by_cases hqueued : E.cfg.routing = .queued ∧ request.kind = .webSocket
  · rw [if_pos ⟨hready, hqueued⟩, if_pos hqueued]
    intro k hk
    rcases spotHead_takesFrom _ _ _ _ k hk with hk | htake
    · exact Or.inl (EndpointQueue.getOrCreateSession_spots E.queue _ _ ▸ hk)
    · exact Or.inr htake
  · rw [if_neg hqueued]
    exact takesFrom_of_spots rfl

theorem wsReadyHead_takesFrom (E : Endpoint) (request : Request) (deadline : Option Time)
    (input : Input) :
    TakesFrom E (E.queue.getOrCreateSession request.requester input.now).2
      (E.connectsFor request input) (E.wsReadyHead request deadline input) := by
  unfold wsReadyHead
  split
  · rename_i hready
    exact connect_takesFrom hready request input
  · split <;> exact takesFrom_of_spots rfl

theorem beginQueued_spots (E : Endpoint) (request : Request) (input : Input) :
    (E.beginQueued request input).1.queue.spots = E.queue.spots := by
  unfold beginQueued
  split
  · rfl
  · exact EndpointQueue.getOrCreateSession_spots E.queue request.requester input.now

theorem readyHead_spots (E : Endpoint) (request : Request) (deadline : Option Time) :
    (E.readyHead request deadline).1.queue.spots = E.queue.spots := by
  unfold readyHead
  split <;> rfl

theorem gate_takesFrom (E : Endpoint) (request : Request) (input : Input) :
    TakesFrom E (E.queue.getOrCreateSession request.requester input.now).2
      (E.connectsFor request input) (E.gate request input) := by
  unfold gate
  cases hkind : request.kind
  case http | catchAll =>
    dsimp only
    split
    · split
      · exact takesFrom_of_spots (beginQueued_spots E _ input)
      · cases E.cfg.waitPolicy with
        | error => exact takesFrom_of_spots rfl
        | wait =>
            dsimp only
            split
            · exact takesFrom_of_spots rfl
            · exact takesFrom_of_spots (beginQueued_spots E _ input)
    · split
      · exact takesFrom_of_spots rfl
      · cases E.cfg.waitPolicy with
        | error => exact takesFrom_of_spots rfl
        | wait => exact takesFrom_of_spots (readyHead_spots E _ _)
  case webSocket | catchAllWebSocket =>
    dsimp only
    split
    · rename_i hready
      exact connect_takesFrom hready request input
    · cases E.cfg.waitPolicy with
      | error => exact takesFrom_of_spots rfl
      | wait => exact wsReadyHead_takesFrom E request _ input

/-- The spots that are new after the step of a task were taken in its promotions, or by its
connection. -/
def Traced (E : Endpoint) (t : Task) (input : Input) (result : Step) : Prop :=
  ∀ k ∈ result.1.queue.spots, k ∈ E.queue.spots ∨
    (∃ p ∈ E.promotionsOf t input, p.1.acquires p.2 = true ∧ p.1.keyOf p.2 = k) ∨
    ∃ s ∈ E.takesFor t input, ((E.passQueue t input).objs s).key = k

theorem traced_of_takesFrom (h : TakesFrom E (E.passQueue t input) (E.passFor t input) result) :
    Traced E t input result := by
  intro k hk
  refine (h k hk).imp_right fun htake => Or.inr ?_
  obtain ⟨s, hs, hspotless, hroom, hkey⟩ := htake
  exact ⟨s, Option.mem_filter_iff.mpr ⟨hs, by simp [hspotless, hroom]⟩, hkey⟩

theorem traced_of_spots (h : ∀ k ∈ result.1.queue.spots, k ∈ E.queue.spots) :
    Traced E t input result := fun k hk =>
  Or.inl (h k hk)

/-- The step gives up spots and runs the promotion loop. -/
theorem traced_of_promotions (q : EndpointQueue) (now : Time)
    (hspots : ∀ k ∈ q.spots, k ∈ E.queue.spots)
    (hpromotions : E.promotionsOf t input = q.promotions now)
    (hresult : result.1.queue = q.tryPromote now) : Traced E t input result := by
  intro k hk
  rw [hresult] at hk
  rw [hpromotions]
  rcases EndpointQueue.spotwise_spotsFrom.tryPromote q now k hk with hold | hnew
  · exact Or.inl (hspots k hold)
  · exact Or.inr (Or.inl hnew)

theorem leaveQueue_traced {e : EntryRef} (hphase : t.phase = .polling e) (reply : Reply)
    (hleaves : (input.disconnected ||
      expired (E.deadlineFrom (E.queue.entries e).enqueuedAt) input.now) = true) :
    Traced E t input (E.leaveQueue e reply input) := by
  -- an entry that was promoted in the meantime is released, and that promotes others
  cases hdone : (E.queue.entries e).done with
  | true =>
      refine traced_of_promotions (E.queue.finish e input.stampAt) input.promoteAt
        (fun _ hk => hk) ?_ ?_
      · simp only [promotionsOf, hphase, hleaves, hdone, Bool.and_self, if_true]
      · exact if_pos hdone
  | false =>
      refine traced_of_spots fun k hk => ?_
      have hqueue : (E.leaveQueue e reply input).1.queue = E.queue.abandon e :=
        if_neg (by simp [hdone])
      rw [hqueue] at hk
      unfold EndpointQueue.abandon at hk
      split at hk <;> exact hk

theorem joinQueue_traced {s : SessionRef} (hphase : t.phase = .recording s)
    (hfailed : ¬ input.failed = true) : Traced E t input (E.joinQueue s t.request.path input) := by
  refine traced_of_promotions
    ((E.queue.newEntry s t.request.path input.now).2.append
      (E.queue.newEntry s t.request.path input.now).1) input.promoteAt (fun _ hk => hk) ?_ ?_
  · simp only [promotionsOf, hphase, if_neg hfailed]
  · exact congrArg Endpoint.queue (slotHead_fst _ _)

theorem disconnect_traced {s : SessionRef} (hphase : t.phase = .tunnel s) :
    Traced E t input (E.disconnect s input) := by
  by_cases hmem : ((E.queue.endWs s).objs s).key ∈ (E.queue.endWs s).spots
  · refine traced_of_promotions ((E.queue.endWs s).dropSpot s) input.promoteAt
      (fun k hk => (OrdDict.mem_erase.mp hk).2) ?_ ?_
    · simp only [promotionsOf, hphase, if_pos hmem]
    · exact if_pos hmem
  · have hqueue : (E.disconnect s input).1.queue = E.queue.endWs s := if_neg hmem
    refine traced_of_spots fun k hk => ?_
    rw [hqueue] at hk
    exact hk

/-- Every spot that is new after the step of a task was taken in one of its promotions, or by its
connection. -/
theorem run_traced (hrun : E.run t input = some result) : Traced E t input result := by
  unfold run at hrun
  cases hphase : t.phase with
  | arrived =>
      simp only [hphase] at hrun
      obtain rfl := Option.some.inj hrun
      unfold start
      split
      · exact traced_of_spots fun _ hk => hk
      · rename_i hqueue
        refine traced_of_takesFrom ?_
        simp only [passQueue, passFor, hphase, if_neg hqueue]
        exact gate_takesFrom E t.request input
  | probing =>
      simp only [hphase] at hrun
      obtain rfl := Option.some.inj hrun
      split
      · exact traced_of_spots fun _ hk => hk
      · rename_i hfailed
        refine traced_of_takesFrom ?_
        simp only [passQueue, passFor, hphase, if_neg hfailed]
        exact gate_takesFrom E t.request input
  | waking =>
      simp only [hphase] at hrun
      obtain rfl := Option.some.inj hrun
      split
      · exact traced_of_spots fun _ hk => hk
      · exact traced_of_takesFrom (takesFrom_of_spots (beginQueued_spots E _ input))
  | recording s =>
      simp only [hphase] at hrun
      obtain rfl := Option.some.inj hrun
      split
      · exact traced_of_spots fun _ hk => hk
      · rename_i hfailed
        exact joinQueue_traced hphase hfailed
  | polling e =>
      simp only [hphase] at hrun
      obtain rfl := Option.some.inj hrun
      unfold slotPolled
      split
      · rename_i hgone
        exact leaveQueue_traced hphase _ (by simp [hgone])
      · split
        · rename_i hexpired
          exact leaveQueue_traced hphase _ (by simp [hexpired])
        · exact traced_of_spots fun _ hk => hk
  | sleeping e =>
      simp only [hphase] at hrun
      obtain rfl := Option.some.inj hrun
      refine traced_of_spots fun k hk => ?_
      rw [slotHead_fst] at hk
      exact hk
  | forwarding e =>
      simp only [hphase] at hrun
      obtain rfl := Option.some.inj hrun
      refine traced_of_promotions (E.queue.finish e input.stampAt) input.promoteAt
        (fun _ hk => hk) ?_ rfl
      simp only [promotionsOf, hphase]
  | readyPolling deadline =>
      simp only [hphase] at hrun
      obtain rfl := Option.some.inj hrun
      split
      · exact traced_of_spots fun _ hk => hk
      · unfold readyPolled
        split
        · exact traced_of_spots fun _ hk => hk
        · split <;> exact traced_of_spots fun _ hk => hk
  | readySleeping deadline =>
      simp only [hphase] at hrun
      obtain rfl := Option.some.inj hrun
      exact traced_of_takesFrom (takesFrom_of_spots (readyHead_spots E t.request deadline))
  | forwardingUnqueued =>
      simp only [hphase] at hrun
      obtain rfl := Option.some.inj hrun
      exact traced_of_spots fun _ hk => hk
  | wsReadyWaiting deadline =>
      simp only [hphase] at hrun
      obtain rfl := Option.some.inj hrun
      refine traced_of_takesFrom ?_
      simp only [passQueue, passFor, hphase]
      exact wsReadyHead_takesFrom E t.request deadline input
  | spotWaiting s deadline =>
      simp only [hphase] at hrun
      obtain rfl := Option.some.inj hrun
      refine traced_of_takesFrom ?_
      simp only [passQueue, passFor, hphase]
      exact spotHead_takesFrom E s deadline input
  | tunnel s =>
      simp only [hphase] at hrun
      obtain rfl := Option.some.inj hrun
      exact disconnect_traced hphase
  | tunnelUnqueued =>
      simp only [hphase] at hrun
      obtain rfl := Option.some.inj hrun
      exact traced_of_spots fun _ hk => hk
  | ended reply =>
      simp only [hphase] at hrun
      cases hrun

/-! ### The line across the steps of a task -/

theorem inLine_begins {q : EndpointQueue} (h : q.InLine order)
    (hphase : ∀ s, t.phase ≠ .recording s) (i : Nat) :
    q.InLine (order ++ E.begins i t input) := by
  unfold begins
  cases hp : t.phase with
  | recording s => exact absurd hp (hphase s)
  | spotWaiting s deadline => simpa using h
  | _ =>
      cases E.passFor t input with
      | none => simpa using h
      | some s => exact h.socket i s

/-- What a connection does to the queue leaves its entries alone. -/
theorem inLine_of_sameEntries {q q' : EndpointQueue} (h : q.InLine order)
    (hsame : EndpointQueue.SameEntries q q') : q'.InLine order :=
  h.keep hsame.queue_eq hsame.entries_eq

theorem spotPass_inLine {q q' : EndpointQueue} {s : SessionRef} {phase : Phase}
    (h : q.InLine order) (hpass : SpotPass q s q' phase) : q'.InLine order := by
  cases hpass with
  | granted hhold => exact inLine_of_sameEntries h (EndpointQueue.sameEntries_holdWsSpot hhold)
  | refused => exact h
  | waits _ => exact h

theorem endWs_inLine {q : EndpointQueue} (h : q.InLine order) (s : SessionRef) :
    (q.endWs s).InLine order :=
  inLine_of_sameEntries h (EndpointQueue.sameEntries_endWs q s)

theorem dropSpot_inLine {q : EndpointQueue} (h : q.InLine order) (s : SessionRef) :
    ((q.endWs s).dropSpot s).InLine order :=
  inLine_of_sameEntries (endWs_inLine h s) (EndpointQueue.sameEntries_dropSpot _ s)

/-- Steps other than the join of an entry keep the entries in line. -/
theorem move_inLine {q : EndpointQueue} {a : Int} {phase : Phase} (h : E.queue.InLine order)
    (hmove : Move E t q a phase) (hphase : ∀ s, t.phase ≠ .recording s) : q.InLine order := by
  cases hmove with
  | join hp => exact absurd hp (hphase _)
  | begin => exact h.getOrCreateSession _ _
  | abandon => exact h.abandon _
  | leave => exact EndpointQueue.managed_inLine.tryPromote (h.finish _ _) _
  | finish => exact EndpointQueue.managed_inLine.tryPromote (h.finish _ _) _
  | connect _ hpass => exact spotPass_inLine (h.getOrCreateSession _ _) hpass
  | retry _ hpass => exact spotPass_inLine h hpass
  | @disconnect s promoteAt =>
      -- the promotion loop runs if the session still has its own spot to give up
      unfold EndpointQueue.releaseWsSpot
      dsimp only
      split
      · exact EndpointQueue.managed_inLine.tryPromote (dropSpot_inLine h s) promoteAt
      · exact endWs_inLine h s
  | _ => exact h

/-- After the step of a task, the entries stand in the order that it has extended. -/
theorem run_inLine (h : E.queue.InLine order) (hrun : E.run t input = some result) (i : Nat) :
    result.1.queue.InLine (order ++ E.begins i t input) := by
  -- an entry joins the line in one phase only; elsewhere the queue loses entries at most
  by_cases hrecording : ∃ s, t.phase = .recording s
  · obtain ⟨s, hphase⟩ := hrecording
    unfold run at hrun
    unfold begins
    simp only [hphase] at hrun ⊢
    obtain rfl := Option.some.inj hrun
    split
    · simpa using h
    · rw [joinQueue, slotHead_fst]
      exact EndpointQueue.managed_inLine.tryPromote
        (h.join s t.request.path input.now) input.promoteAt
  · have hphase : ∀ s, t.phase ≠ .recording s := fun s hs => hrecording ⟨s, hs⟩
    obtain ⟨q, a, hresult, hmove⟩ := run_moves hrun
    rw [hresult]
    exact inLine_begins (move_inLine h hmove hphase) hphase i

/-- The promotions in the step of a task are made of the entry selected, with the entries in
line. -/
theorem promotionsOf_inLine (h : E.queue.InLine order) (t : Task) (input : Input) (i : Nat) :
    ∀ p ∈ E.promotionsOf t input,
      p.1.InLine (order ++ E.begins i t input) ∧ EndpointQueue.Selected p.1 p.2 := by
  have hinduct : ∀ {order : List Turn} {q : EndpointQueue} {now : Time}, q.InLine order →
      ∀ p ∈ q.promotions now, p.1.InLine order ∧ EndpointQueue.Selected p.1 p.2 :=
    fun {_ _ now} h₀ => EndpointQueue.promotions_induction (fun _ e hq _ => hq.promote now e) h₀
  unfold promotionsOf
  cases hphase : t.phase with
  | recording s =>
      dsimp only
      split
      · exact fun _ hp => absurd hp List.not_mem_nil
      · rename_i hfailed
        simp only [begins, hphase, if_neg hfailed]
        exact hinduct (h.join s t.request.path input.now)
  | polling e =>
      dsimp only
      split
      · exact hinduct (inLine_begins (h.finish e _) (by simp [hphase]) i)
      · exact fun _ hp => absurd hp List.not_mem_nil
  | forwarding e => exact hinduct (inLine_begins (h.finish e _) (by simp [hphase]) i)
  | tunnel s =>
      dsimp only
      split
      · exact hinduct (inLine_begins (dropSpot_inLine h s) (by simp [hphase]) i)
      · exact fun _ hp => absurd hp List.not_mem_nil
  | _ => exact fun _ hp => absurd hp List.not_mem_nil

end Endpoint

/-! ### How free spots are given -/

/-- A free spot that a session takes: the queue in which it does, and who waits for a spot
there, in the order in which they have begun to. -/
structure Grant where
  queue : EndpointQueue
  session : SessionRef
  /-- A connection takes the spot, not the promotion loop. -/
  toSocket : Bool
  line : List Turn

namespace Grant

/-- The waiter without a usable spot that has waited longest. -/
def first (g : Grant) : Option Turn := g.line.find? fun turn => g.queue.spotless turn.session

/-- The waiter belongs to the session that takes the spot. -/
def Serves (g : Grant) (turn : Turn) : Prop :=
  (g.queue.objs turn.session).key = (g.queue.objs g.session).key

instance (g : Grant) (turn : Turn) : Decidable (g.Serves turn) :=
  inferInstanceAs (Decidable (_ = _))

/-- No other session without a usable spot has waited longer. -/
def Fair (g : Grant) : Prop := ∀ turn ∈ g.first, g.Serves turn

instance (g : Grant) : Decidable g.Fair := inferInstanceAs (Decidable (∀ turn ∈ g.first, _))

/-- The promotion loop gives the spot while an HTTP entry is first in line, or someone of the
session; a connection takes it while someone of the session is. -/
def InTurn (g : Grant) : Prop :=
  ∀ turn ∈ g.first, (g.toSocket = false ∧ turn.entryRef?.isSome = true) ∨ g.Serves turn

instance (g : Grant) : Decidable g.InTurn :=
  inferInstanceAs (Decidable (∀ turn ∈ g.first, _ ∨ _))

end Grant

/-- Whether the connection is held in `_hold_ws_spot`. -/
def Phase.isSpotWaiting : Phase → Bool
  | .spotWaiting _ _ => true
  | _ => false

namespace Endpoint

/-- Who waits for a spot while the queue is `q` and the connection `pass` comes by. -/
def waits (E : Endpoint) (q : EndpointQueue) (pass : Option Nat) (turn : Turn) : Bool :=
  match turn.waiter with
  | .entry e => decide (e ∈ q.queue)
  | .socket i => decide (pass = some i) || (E.tasks[i]?).any (fun t => t.phase.isSpotWaiting)

/-- The spots the promotion loop gives. -/
def entryGrants (E : Endpoint) (order : List Turn) (promotions : List (EndpointQueue × EntryRef)) :
    List Grant :=
  (promotions.filter (fun p => p.1.acquires p.2)).map fun p =>
    { queue := p.1
      session := p.1.sessionOf p.2
      toSocket := false
      line := order.filter (E.waits p.1 none) }

/-- The spot the connection of the task `i` takes. -/
def socketGrants (E : Endpoint) (order : List Turn) (i : Nat) (t : Task) (input : Input) :
    List Grant :=
  (E.takesFor t input).toList.map fun s =>
    { queue := E.passQueue t input
      session := s
      toSocket := true
      line := order.filter (E.waits (E.passQueue t input) (some i)) }

end Endpoint

/-- An endpoint, with the order in which its HTTP entries and connections have begun to wait,
and the free spots given so far. -/
structure Line where
  endpoint : Endpoint
  order : List Turn
  grants : List Grant

namespace Line

/-- A new endpoint. -/
def init (cfg : EndpointConfig) : Line where
  endpoint := .init cfg
  order := []
  grants := []

variable (L : Line)

/-- Who begins to wait in a step. -/
def begins : Endpoint.Op → List Turn
  | .resume i input => (L.endpoint.tasks[i]?).elim [] (fun t => L.endpoint.begins i t input)
  | .arrive _ | .manage _ => []

/-- The free spots given in a step. -/
def grantsOf (op : Endpoint.Op) : List Grant :=
  let order := L.order ++ L.begins op
  match op with
  | .arrive _ => []
  | .manage op => L.endpoint.entryGrants order (L.endpoint.queue.promotionsOf op)
  | .resume i input =>
      (L.endpoint.tasks[i]?).elim [] fun t =>
        L.endpoint.entryGrants order (L.endpoint.promotionsOf t input) ++
          L.endpoint.socketGrants order i t input

/-- A step of the endpoint. -/
def step (op : Endpoint.Op) : Option Line :=
  (L.endpoint.step op).map fun endpoint =>
    { endpoint := endpoint
      order := L.order ++ L.begins op
      grants := L.grants ++ L.grantsOf op }

/-- All free spots of the step are given in turn. -/
def StepInTurn (op : Endpoint.Op) : Prop := ∀ g ∈ L.grantsOf op, g.InTurn

instance (op : Endpoint.Op) : Decidable (L.StepInTurn op) :=
  inferInstanceAs (Decidable (∀ g ∈ L.grantsOf op, g.InTurn))

/-- The entries of the queue stand in the order. -/
def Kept : Prop := L.endpoint.queue.InLine L.order

variable {L} {L' : Line} {op : Endpoint.Op} {g : Grant} {order : List Turn}

theorem entryGrants_fair_iff {E : Endpoint} {promotions : List (EndpointQueue × EntryRef)}
    (h : ∀ p ∈ promotions, p.1.InLine order ∧ EndpointQueue.Selected p.1 p.2)
    (hg : g ∈ E.entryGrants order promotions) : g.Fair ↔ g.InTurn := by
  obtain ⟨p, hp, rfl⟩ := List.mem_map.mp hg
  obtain ⟨hp, hacquires⟩ := List.mem_filter.mp hp
  obtain ⟨hline, hsel⟩ := h p hp
  constructor
  · exact fun hfair turn hturn => Or.inr (hfair turn hturn)
  · intro hinturn turn hturn
    rcases hinturn turn hturn with ⟨-, hentry⟩ | hserves
    · -- an entry that is first in line is the one promoted
      obtain ⟨a, ha⟩ := Option.isSome_iff_exists.mp hentry
      obtain heq := Turn.entryRef?_eq_some_iff.mp ha
      have hmem := (List.mem_filter.mp (List.mem_of_find?_eq_some hturn)).1
      rw [heq] at hturn hmem
      obtain rfl := hline.first_eq hsel hacquires (fun _ _ => rfl) hturn
      exact congrArg (fun s => (p.1.objs s).key) (hline.session p.2 _ hmem).symm
    · exact hserves

theorem socketGrants_fair_iff {E : Endpoint} {i : Nat} {t : Task} {input : Input}
    (hg : g ∈ E.socketGrants order i t input) : g.Fair ↔ g.InTurn := by
  obtain ⟨s, -, rfl⟩ := List.mem_map.mp hg
  constructor
  · exact fun hfair turn hturn => Or.inr (hfair turn hturn)
  · intro hinturn turn hturn
    exact (hinturn turn hturn).resolve_left fun hleft => Bool.false_ne_true hleft.1.symm

theorem kept_init (cfg : EndpointConfig) : (init cfg).Kept where
  sorted := List.Pairwise.nil
  order_sorted := List.Pairwise.nil
  order_lt := fun _ he => absurd he List.not_mem_nil
  mem := fun _ he => absurd he List.not_mem_nil
  session := fun _ _ he => absurd he List.not_mem_nil

/-- What a step does to the line. -/
theorem step_eq_some (h : L.step op = some L') :
    L.endpoint.step op = some L'.endpoint ∧ L'.order = L.order ++ L.begins op ∧
      L'.grants = L.grants ++ L.grantsOf op := by
  obtain ⟨E, hE, rfl⟩ := Option.map_eq_some_iff.mp h
  exact ⟨hE, rfl, rfl⟩

theorem Kept.step (h : L.Kept) (hstep : L.step op = some L') : L'.Kept := by
  obtain ⟨hE, horder, -⟩ := step_eq_some hstep
  rw [Kept, horder]
  rcases Endpoint.step_cases hE with ⟨request, rfl, hE'⟩ |
    ⟨i, input, t, q, a, phase, rfl, ht, -, hrun, hE'⟩ | ⟨qop, q, rfl, hmanaged, hq, hE'⟩
  · rw [hE', begins, List.append_nil]
    exact h
  · rw [hE', begins, ht]
    exact Endpoint.run_inLine h hrun i
  · rw [hE', begins, List.append_nil]
    exact EndpointQueue.managed_inLine.step h hmanaged hq

/-- A free spot given in a step is given to the session whose turn it is exactly when it is given
in turn. -/
theorem Kept.grant_fair_iff (h : L.Kept) (hstep : L.step op = some L') (hg : g ∈ L.grantsOf op) :
    g.Fair ↔ g.InTurn := by
  obtain ⟨hE, -, -⟩ := step_eq_some hstep
  rcases Endpoint.step_cases hE with ⟨request, rfl, -⟩ |
    ⟨i, input, t, q, a, phase, rfl, ht, -, -, -⟩ | ⟨qop, q, rfl, hmanaged, -, -⟩
  · exact absurd hg List.not_mem_nil
  · simp only [grantsOf, begins, ht, Option.elim_some, List.mem_append] at hg
    rcases hg with hg | hg
    · exact entryGrants_fair_iff (Endpoint.promotionsOf_inLine h t input i) hg
    · exact socketGrants_fair_iff hg
  · simp only [grantsOf, begins, List.append_nil] at hg
    exact entryGrants_fair_iff (EndpointQueue.managed_inLine.promotionsOf h hmanaged) hg

theorem mem_entryGrants {E : Endpoint} {promotions : List (EndpointQueue × EntryRef)} {k : Key}
    (h : ∃ p ∈ promotions, p.1.acquires p.2 = true ∧ p.1.keyOf p.2 = k) :
    ∃ g ∈ E.entryGrants order promotions, (g.queue.objs g.session).key = k := by
  obtain ⟨p, hp, hacquires, hkey⟩ := h
  exact ⟨_, List.mem_map.mpr ⟨p, List.mem_filter.mpr ⟨hp, hacquires⟩, rfl⟩, hkey⟩

/-- Every spot that a session has after a step and not before it is given in the step. -/
theorem step_granted (hstep : L.step op = some L') {k : Key}
    (hk : k ∈ L'.endpoint.queue.spots) (hnew : k ∉ L.endpoint.queue.spots) :
    ∃ g ∈ L.grantsOf op, (g.queue.objs g.session).key = k := by
  obtain ⟨hE, -, -⟩ := step_eq_some hstep
  rcases Endpoint.step_cases hE with ⟨request, rfl, hE'⟩ |
    ⟨i, input, t, q, a, phase, rfl, ht, -, hrun, hE'⟩ | ⟨qop, q, rfl, -, hq, hE'⟩
  · rw [hE'] at hk
    exact absurd hk hnew
  · rw [hE'] at hk
    simp only [grantsOf, ht, Option.elim_some]
    rcases (Endpoint.run_traced hrun k hk).resolve_left hnew with hentry | ⟨s, hs, hkey⟩
    · obtain ⟨g, hg, hgk⟩ := mem_entryGrants hentry
      exact ⟨g, List.mem_append_left _ hg, hgk⟩
    · exact ⟨_, List.mem_append_right _ (List.mem_map.mpr ⟨s, Option.mem_toList.mpr hs, rfl⟩), hkey⟩
  · rw [hE'] at hk
    exact mem_entryGrants ((EndpointQueue.spotwise_spotsFrom.step hq k hk).resolve_left hnew)

/-- **When HTTP and WebSockets wait in one line.** In a run of an endpoint, every session that
takes a free spot has waited longest of those without a usable spot exactly when the promotion
loop gives none while a connection of another session is first in line, and a connection takes
none while anybody of another session is. -/
theorem fair_iff {cfg : EndpointConfig} {ops : List Endpoint.Op}
    (h : Run (Steps step Any) (init cfg) ops L) :
    (∀ g ∈ L.grants, g.Fair) ↔ Run (Steps step StepInTurn) (init cfg) ops L := by
  refine last_iff (I := fun L => ∀ g ∈ L.grants, g.Fair) (J := Kept)
    (fun _ _ _ hkept hstep => hkept.step hstep) ?_ ?_ h (kept_init cfg)
    (fun _ hg => absurd hg List.not_mem_nil)
  · intro L op L' _ hunfair hstep hfair
    obtain ⟨-, -, hgrants⟩ := step_eq_some hstep
    exact hunfair fun g hg => hfair g (hgrants ▸ List.mem_append_left _ hg)
  · intro L op L' hkept hfair hstep
    obtain ⟨-, -, hgrants⟩ := step_eq_some hstep
    rw [hgrants, List.forall_mem_append]
    constructor
    · exact fun hall g hg => (hkept.grant_fair_iff hstep hg).mp (hall.2 g hg)
    · exact fun hok => ⟨hfair, fun g hg => (hkept.grant_fair_iff hstep hg).mpr (hok g hg)⟩

/-- HTTP and WebSockets wait in one line. -/
def OneLine : Prop :=
  ∀ (cfg : EndpointConfig) (ops : List Endpoint.Op) (L : Line),
    Run (Steps step Any) (init cfg) ops L → ∀ g ∈ L.grants, g.Fair

/-- A queued endpoint with one spot. -/
def oneSpot : EndpointConfig := .queued (.ofArgs 1 1 300 600 false true)

/-- A request of the session `id`, and `n` steps of its task `i`. -/
def admission (kind : RequestKind) (id : String) (i n : Nat) : List Endpoint.Op :=
  .arrive (.ofSession kind id) :: List.replicate n (.resume i {})

/-- The session `id` is made to give up its spot. -/
def release (id : String) : Endpoint.Op := .manage (.releaseSession "unknown" id 1)

/-- While `a` has the spot, the HTTP request of `c` comes before the connection of `b`. -/
def entryFirst : List Endpoint.Op :=
  .manage (.setReady true) :: admission .http "a" 0 3 ++ admission .http "c" 1 3 ++
    admission .webSocket "b" 2 1 ++ [release "a", release "c", .resume 2 {}]

/-- Both get the spot in their turn. -/
theorem fair_iff_entryFirst :
    ∃ L, Run (Steps step Any) (init oneSpot) entryFirst L ∧
      L.grants.map (fun g => (g.toSocket, g.line.length)) = [(false, 1), (false, 2), (true, 1)] ∧
      ∀ g ∈ L.grants, g.Fair := by
  have hview : (exec (guarded step StepInTurn) (init oneSpot) entryFirst).map
      (fun L => L.grants.map (fun g => (g.toSocket, g.line.length))) =
        some [(false, 1), (false, 2), (true, 1)] := by decide +kernel
  obtain ⟨L, hexec, hL⟩ := Option.map_eq_some_iff.mp hview
  have hrun := run_of_exec_guarded hexec
  have hany := run_any_of_exec (exec_of_run hrun)
  exact ⟨L, hany, hL, (fair_iff hany).mpr hrun⟩

/-- While `a` has the spot, the connection of `b` comes before the HTTP request of `c`. -/
def socketFirst : List Endpoint.Op :=
  .manage (.setReady true) :: admission .http "a" 0 3 ++ admission .webSocket "b" 1 2 ++
    admission .http "c" 2 3 ++ [release "a"]

/-- The promotion loop gives the spot to `c`. -/
theorem fair_counterexample : ¬ OneLine := by
  intro h
  have hview : (exec step (init oneSpot) socketFirst).map
      (fun L => decide (∀ g ∈ L.grants, g.Fair)) = some false := by decide +kernel
  obtain ⟨L, hexec, hL⟩ := Option.map_eq_some_iff.mp hview
  exact of_decide_eq_false hL (h _ _ L (run_any_of_exec hexec))

end Line

end Relay
