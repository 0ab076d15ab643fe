import Relay.Endpoint.Basic

/-!
# Relay.Endpoint.Moves

What one step of a task can do, said once. `Move E t q a phase` lists the ways in which a
task `t` of the endpoint `E` runs on to `phase`, leaving the queue `q` and the count `a`
of unqueued forwards; `run_move` shows that `run` does nothing else. The invariants of
the endpoint are case analyses over `Move`.
-/

namespace Relay

/-! ### What a phase refers to -/

namespace Phase

/-- A phase in which the task refers to no session, entry or counter, and has not called
`_forward`. -/
def isIdle : Phase → Bool
  | .arrived | .probing | .waking | .readyPolling _ | .readySleeping _ | .wsReadyWaiting _
  | .ended .notReady | .ended .disconnected | .ended .timedOut | .ended .failed
  | .ended (.closed _) => true
  | _ => false

/-- The queue entry a task waits for or runs on. -/
def entryRef? : Phase → Option EntryRef
  | .polling e | .sleeping e | .forwarding e => some e
  | _ => none

/-- The session an unfinished admission has looked up and not yet used. -/
def pending? : Phase → Option SessionRef
  | .recording s | .spotWaiting s _ => some s
  | _ => none

/-- The session whose spot a connection runs on. -/
def tunnel? : Phase → Option SessionRef
  | .tunnel s => some s
  | _ => none

/-- Whether the task counts in `active_forwards`. -/
def isUnqueued : Phase → Bool
  | .forwardingUnqueued | .tunnelUnqueued | .ended .leaked => true
  | _ => false

/-- Whether the task has called `_forward`. -/
def hasForwarded : Phase → Bool
  | .forwarding _ | .forwardingUnqueued | .ended .forwarded => true
  | _ => false

variable {phase : Phase}

theorem isIdle.entryRef? (h : phase.isIdle = true) : phase.entryRef? = none := by
  cases phase <;> first | rfl | exact absurd h Bool.false_ne_true

theorem isIdle.pending? (h : phase.isIdle = true) : phase.pending? = none := by
  cases phase <;> first | rfl | exact absurd h Bool.false_ne_true

theorem isIdle.tunnel? (h : phase.isIdle = true) : phase.tunnel? = none := by
  cases phase <;> first | rfl | exact absurd h Bool.false_ne_true

theorem isIdle.isUnqueued (h : phase.isIdle = true) : phase.isUnqueued = false := by
  cases phase with
  | ended reply => cases reply <;> first | rfl | exact absurd h Bool.false_ne_true
  | _ => first | rfl | exact absurd h Bool.false_ne_true

theorem isIdle.hasForwarded (h : phase.isIdle = true) : phase.hasForwarded = false := by
  cases phase with
  | ended reply => cases reply <;> first | rfl | exact absurd h Bool.false_ne_true
  | _ => first | rfl | exact absurd h Bool.false_ne_true

/-- Only an admission that raised when it was counted stays counted. -/
theorem isUnqueued_ended {reply : Reply} (h : reply ≠ .leaked) :
    (Phase.ended reply).isUnqueued = false := by
  cases reply with
  | leaked => exact absurd rfl h
  | _ => rfl

end Phase

namespace Endpoint

/-- One pass of the loop of `_hold_ws_spot` for the session `s`: the connection is given a
spot, or it is refused, or it waits on. -/
inductive SpotPass (q : EndpointQueue) (s : SessionRef) : EndpointQueue → Phase → Prop
  | granted {now : Time} {q' : EndpointQueue} : q.holdWsSpot s now = some q' →
      SpotPass q s q' (.tunnel s)
  | refused : SpotPass q s q (.ended (.closed none))
  | waits {now : Time} {deadline : Option Time} : q.holdWsSpot s now = none →
      SpotPass q s q (.spotWaiting s deadline)

/-- The steps of a task: the queue and the count of unqueued forwards it leaves, and its
next phase. -/
inductive Move (E : Endpoint) (t : Task) : EndpointQueue → Int → Phase → Prop
  | idle {phase : Phase} : t.phase.isIdle = true → phase.isIdle = true →
      Move E t E.queue E.activeForwards phase
  | begin {r : Requester} {now : Time} : t.phase.isIdle = true →
      Move E t (E.queue.getOrCreateSession r now).2 E.activeForwards
        (.recording (E.queue.getOrCreateSession r now).1)
  | fail {s : SessionRef} : t.phase = .recording s →
      Move E t E.queue E.activeForwards (.ended .failed)
  | join {s : SessionRef} {path : String} {now promoteAt : Time} {phase : Phase} :
      t.phase = .recording s →
      (slotHead { E with queue := ((E.queue.newEntry s path now).2.enqueue
        (E.queue.newEntry s path now).1 promoteAt) } (E.queue.newEntry s path now).1).2 = phase →
      Move E t ((E.queue.newEntry s path now).2.enqueue (E.queue.newEntry s path now).1 promoteAt)
        E.activeForwards phase
  | head {e : EntryRef} : t.phase = .sleeping e →
      Move E t E.queue E.activeForwards (E.slotHead e).2
  | sleep {e : EntryRef} : t.phase = .polling e → Move E t E.queue E.activeForwards (.sleeping e)
  | abandon {e : EntryRef} {reply : Reply} : t.phase = .polling e →
      (E.queue.entries e).done = false → reply = .disconnected ∨ reply = .timedOut →
      Move E t (E.queue.abandon e) E.activeForwards (.ended reply)
  | leave {e : EntryRef} {reply : Reply} {now promoteAt : Time} : t.phase = .polling e →
      (E.queue.entries e).done = true → reply = .disconnected ∨ reply = .timedOut →
      Move E t (E.queue.release e now promoteAt) E.activeForwards (.ended reply)
  | finish {e : EntryRef} {now promoteAt : Time} : t.phase = .forwarding e →
      Move E t (E.queue.release e now promoteAt) E.activeForwards (.ended .forwarded)
  | forward {phase : Phase} : t.phase.isIdle = true →
      phase = .forwardingUnqueued ∨ phase = .tunnelUnqueued ∨ phase = .ended .leaked →
      Move E t E.queue (E.activeForwards + 1) phase
  | finishForward : t.phase = .forwardingUnqueued →
      Move E t E.queue (max 0 (E.activeForwards - 1)) (.ended .forwarded)
  | finishTunnel : t.phase = .tunnelUnqueued →
      Move E t E.queue (max 0 (E.activeForwards - 1)) (.ended (.closed none))
  | connect {r : Requester} {now : Time} {q : EndpointQueue} {phase : Phase} :
      t.phase.isIdle = true →
      SpotPass (E.queue.getOrCreateSession r now).2 (E.queue.getOrCreateSession r now).1 q phase →
      Move E t q E.activeForwards phase
  | retry {s : SessionRef} {deadline : Option Time} {q : EndpointQueue} {phase : Phase} :
      t.phase = .spotWaiting s deadline → SpotPass E.queue s q phase →
      Move E t q E.activeForwards phase
  | disconnect {s : SessionRef} {promoteAt : Time} : t.phase = .tunnel s →
      Move E t (E.queue.releaseWsSpot s promoteAt) E.activeForwards (.ended (.closed none))

/-- The result of a step as a `Move`, the settings and the tasks being untouched. -/
def Moves (E : Endpoint) (t : Task) (result : Step) : Prop :=
  ∃ q a, result.1 = { E with queue := q, activeForwards := a } ∧ Move E t q a result.2

variable {E : Endpoint} {t : Task}

theorem Move.moves {q : EndpointQueue} {a : Int} {phase : Phase} (h : Move E t q a phase) :
    Moves E t ({ E with queue := q, activeForwards := a }, phase) :=
  ⟨q, a, rfl, h⟩

theorem beginQueued_moves (hidle : t.phase.isIdle = true) (request : Request) (input : Input) :
    Moves E t (E.beginQueued request input) := by
  unfold beginQueued
  split
  · exact (Move.idle hidle rfl).moves
  · exact (Move.begin (r := request.requester) hidle).moves

theorem forwardUnqueued_moves (hidle : t.phase.isIdle = true) (request : Request) :
    Moves E t (E.forwardUnqueued request) := by
  unfold forwardUnqueued
  split
  · exact (Move.forward hidle (Or.inr (Or.inr rfl))).moves
  · exact (Move.forward hidle (Or.inl rfl)).moves

theorem readyHead_moves (hidle : t.phase.isIdle = true) (request : Request)
    (deadline : Option Time) : Moves E t (E.readyHead request deadline) := by
  unfold readyHead
  split
  · exact forwardUnqueued_moves hidle request
  · exact (Move.idle hidle rfl).moves

theorem spotHead_pass (E : Endpoint) (s : SessionRef) (deadline : Option Time) (input : Input) :
    ∃ q, (E.spotHead s deadline input).1 = { E with queue := q } ∧
      SpotPass E.queue s q (E.spotHead s deadline input).2 := by
  unfold spotHead
  cases hhold : E.queue.holdWsSpot s input.promoteAt with
  | some q => exact ⟨q, rfl, .granted hhold⟩
  | none =>
      dsimp only
      split
      · exact ⟨E.queue, rfl, .refused⟩
      · exact ⟨E.queue, rfl, .waits hhold⟩

theorem connect_moves (hidle : t.phase.isIdle = true) (request : Request) (input : Input) :
    Moves E t (E.connect request input) := by
  unfold connect
  split
  · obtain ⟨q, hq, hpass⟩ := spotHead_pass
      { E with queue := (E.queue.getOrCreateSession request.requester input.now).2 }
      (E.queue.getOrCreateSession request.requester input.now).1
      (E.deadlineFrom input.stampAt) input
    exact ⟨q, E.activeForwards, hq, .connect hidle hpass⟩
  · exact (Move.forward hidle (Or.inr (Or.inl rfl))).moves

theorem wsReadyHead_moves (hidle : t.phase.isIdle = true) (request : Request)
    (deadline : Option Time) (input : Input) :
    Moves E t (E.wsReadyHead request deadline input) := by
  unfold wsReadyHead
  split
  · exact connect_moves hidle request input
  · split
    · exact (Move.idle hidle rfl).moves
    · exact (Move.idle hidle rfl).moves

theorem gate_moves (hidle : t.phase.isIdle = true) (request : Request) (input : Input) :
    Moves E t (E.gate request input) := by
  unfold gate
  cases request.kind
  case http | catchAll =>
    dsimp only
    split
    · split
      · exact beginQueued_moves hidle request input
      · cases E.cfg.waitPolicy with
        | error => exact (Move.idle hidle rfl).moves
        | wait =>
            dsimp only
            split
            · exact (Move.idle hidle rfl).moves
            · exact beginQueued_moves hidle request input
    · split
      · exact forwardUnqueued_moves hidle request
      · cases E.cfg.waitPolicy with
        | error => exact (Move.idle hidle rfl).moves
        | wait => exact readyHead_moves hidle request _
  case webSocket | catchAllWebSocket =>
    dsimp only
    split
    · exact connect_moves hidle request input
    · cases E.cfg.waitPolicy with
      | error => exact (Move.idle hidle rfl).moves
      | wait => exact wsReadyHead_moves hidle request _ input

theorem slotHead_fst (E : Endpoint) (e : EntryRef) : (E.slotHead e).1 = E := by
  unfold slotHead
  split <;> rfl

theorem slotHead_moves {e : EntryRef} (h : t.phase = .sleeping e) : Moves E t (E.slotHead e) :=
  ⟨E.queue, E.activeForwards, slotHead_fst E e, .head h⟩

theorem leaveQueue_moves {e : EntryRef} (h : t.phase = .polling e) {reply : Reply}
    (hreply : reply = .disconnected ∨ reply = .timedOut) (input : Input) :
    Moves E t (E.leaveQueue e reply input) := by
  unfold leaveQueue
  cases hdone : (E.queue.entries e).done with
  | true => exact (Move.leave h hdone hreply).moves
  | false => exact (Move.abandon h hdone hreply).moves

/-- `run` does what `Move` lists. -/
theorem run_moves {input : Input} {result : Step} (h : E.run t input = some result) :
    Moves E t result := by
  unfold run at h
  cases hphase : t.phase with
  | arrived =>
      have hidle : t.phase.isIdle = true := by rw [hphase]; rfl
      simp only [hphase] at h
      obtain rfl := Option.some.inj h
      unfold start
      split
      · exact (Move.idle hidle rfl).moves
      · exact gate_moves hidle t.request input
  | probing =>
      have hidle : t.phase.isIdle = true := by rw [hphase]; rfl
      simp only [hphase] at h
      obtain rfl := Option.some.inj h
      split
      · exact (Move.idle hidle rfl).moves
      · exact gate_moves hidle t.request input
  | waking =>
      have hidle : t.phase.isIdle = true := by rw [hphase]; rfl
      simp only [hphase] at h
      obtain rfl := Option.some.inj h
      split
      · exact (Move.idle hidle rfl).moves
      · exact beginQueued_moves hidle t.request input
  | recording s =>
      simp only [hphase] at h
      obtain rfl := Option.some.inj h
      split
      · exact (Move.fail hphase).moves
      · exact ⟨_, E.activeForwards, slotHead_fst _ _, .join hphase rfl⟩
  | polling e =>
      simp only [hphase] at h
      obtain rfl := Option.some.inj h
      unfold slotPolled
      split
      · exact leaveQueue_moves hphase (Or.inl rfl) input
      · split
        · exact leaveQueue_moves hphase (Or.inr rfl) input
        · exact (Move.sleep hphase).moves
  | sleeping e =>
      simp only [hphase] at h
      obtain rfl := Option.some.inj h
      exact slotHead_moves hphase
  | forwarding e =>
      simp only [hphase] at h
      obtain rfl := Option.some.inj h
      exact (Move.finish hphase).moves
  | readyPolling deadline =>
      have hidle : t.phase.isIdle = true := by rw [hphase]; rfl
      simp only [hphase] at h
      obtain rfl := Option.some.inj h
      split
      · exact (Move.idle hidle rfl).moves
      · unfold readyPolled
        split
        · exact (Move.idle hidle rfl).moves
        · split
          · exact (Move.idle hidle rfl).moves
          · exact (Move.idle hidle rfl).moves
  | readySleeping deadline =>
      simp only [hphase] at h
      obtain rfl := Option.some.inj h
      exact readyHead_moves (by rw [hphase]; rfl) t.request deadline
  | forwardingUnqueued =>
      simp only [hphase] at h
      obtain rfl := Option.some.inj h
      exact (Move.finishForward hphase).moves
  | wsReadyWaiting deadline =>
      simp only [hphase] at h
      obtain rfl := Option.some.inj h
      exact wsReadyHead_moves (by rw [hphase]; rfl) t.request deadline input
  | spotWaiting s deadline =>
      simp only [hphase] at h
      obtain rfl := Option.some.inj h
      obtain ⟨q, hq, hpass⟩ := spotHead_pass E s deadline input
      exact ⟨q, E.activeForwards, hq, .retry hphase hpass⟩
  | tunnel s =>
      simp only [hphase] at h
      obtain rfl := Option.some.inj h
      exact (Move.disconnect hphase).moves
  | tunnelUnqueued =>
      simp only [hphase] at h
      obtain rfl := Option.some.inj h
      exact (Move.finishTunnel hphase).moves
  | ended reply =>
      simp only [hphase] at h
      exact absurd h (by simp)

/-- The endpoint after the task `t` at position `i` has run on to `phase`. -/
def advance (E : Endpoint) (i : Nat) (t : Task) (q : EndpointQueue) (a : Int) (phase : Phase) :
    Endpoint :=
  { E with queue := q, activeForwards := a, tasks := E.tasks.set i (t.moveTo phase) }

/-- A step of an endpoint: a task arrives, a task moves, or the queue is managed. -/
theorem step_cases {op : Op} {E' : Endpoint} (h : E.step op = some E') :
    (∃ request, op = .arrive request ∧
      E' = { E with tasks := E.tasks ++ [{ request := request }] }) ∨
    (∃ i input t q a phase, op = .resume i input ∧ E.tasks[i]? = some t ∧ Move E t q a phase ∧
      E.run t input = some ({ E with queue := q, activeForwards := a }, phase) ∧
      E' = E.advance i t q a phase) ∨
    (∃ qop q, op = .manage qop ∧ qop.isManaged = true ∧ E.queue.step qop = some q ∧
      E' = { E with queue := q }) := by
  cases op with
  | arrive request =>
      obtain rfl := Option.some.inj h
      exact Or.inl ⟨request, rfl, rfl⟩
  | resume i input =>
      cases ht : E.tasks[i]? with
      | none => simp [step, ht] at h
      | some t =>
          simp only [step, ht] at h
          obtain ⟨result, hrun, rfl⟩ := Option.map_eq_some_iff.mp h
          obtain ⟨q, a, heq, hmove⟩ := run_moves hrun
          obtain ⟨E₁, phase⟩ := result
          obtain rfl : E₁ = _ := heq
          exact Or.inr (Or.inl ⟨i, input, t, q, a, phase, rfl, ht, hmove, hrun, rfl⟩)
  | manage qop =>
      obtain ⟨hmanaged, hmap⟩ := Option.ite_none_right_eq_some.mp h
      obtain ⟨q, hstep, rfl⟩ := Option.map_eq_some_iff.mp hmap
      exact Or.inr (Or.inr ⟨qop, q, rfl, hmanaged, hstep, rfl⟩)

end Endpoint

end Relay
