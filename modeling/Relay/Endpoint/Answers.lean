import Relay.Endpoint.Moves
import Relay.Library.Runs
import Relay.Queue.Operations

/-!
# Relay.Endpoint.Answers

**Why a request gets the answer it gets.** Besides the response of the target, an admission ends
with answers of its own: 503 when the endpoint is not ready and does not wait, 503 when the client
has hung up, 504 when the hold has timed out, an error when something it awaits has raised. While it
is held, other admissions, the queue manager, the poller and the monitor do what they like on the
same endpoint.

Each of these answers has its reason in the step in which it is given (`replies_justified`). In
particular the hold of a request does not end before its `queue_timeout`, counted from the step in
which it joined the queue or began to wait for the endpoint; it was held in every state since then;
and a poll at that time or later ends it.
-/

namespace Relay

open Runs

namespace EndpointQueue

variable {q₀ q : EndpointQueue}

/-- The entries of `q₀` are entries of `q`, with the times at which they were enqueued. -/
structure Stamped (q₀ q : EndpointQueue) : Prop where
  next_le : q₀.entries.next ≤ q.entries.next
  stamp : ∀ e < q₀.entries.next, (q.entries e).enqueuedAt = (q₀.entries e).enqueuedAt

theorem Stamped.refl (q : EndpointQueue) : Stamped q q := ⟨Nat.le_refl _, fun _ _ => rfl⟩

theorem Stamped.of_entries (h : Stamped q₀ q) {q' : EndpointQueue}
    (hentries : q'.entries = q.entries) : Stamped q₀ q' :=
  ⟨hentries ▸ h.next_le, fun e he => hentries ▸ h.stamp e he⟩

theorem Stamped.promote (h : Stamped q₀ q) (now : Time) (e : EntryRef) :
    Stamped q₀ (q.promote now e) := by
  constructor
  · rw [promote_entries]
    exact h.next_le
  · intro e' he'
    rw [promote_entries]
    have hsame := Heap.modify_proj QueueEntry.enqueuedAt q.entries e
      (fun x => { x with go := true, done := true }) (fun _ => rfl) e'
    exact hsame.trans (h.stamp e' he')

theorem managed_stamped (q₀ : EndpointQueue) : Managed (Stamped q₀) where
  promote := fun _ e now h _ => h.promote now e
  freeSpot := fun _ _ _ h _ => h.of_entries rfl
  forget := fun _ _ _ h _ _ => h.of_entries rfl
  cosmetic := fun _ _ _ h _ => h.of_entries rfl
  setReady := fun _ _ h => h.of_entries rfl

theorem Stamped.newEntry (h : Stamped q₀ q) (s : SessionRef) (path : String) (now : Time) :
    Stamped q₀ (q.newEntry s path now).2 where
  next_le := Nat.le_succ_of_le h.next_le
  stamp := fun e he => by
    have hold : (q.newEntry s path now).2.entries e = q.entries e :=
      Heap.alloc_of_lt _ _ (Nat.lt_of_lt_of_le he h.next_le)
    rw [hold]
    exact h.stamp e he

theorem Stamped.enqueue (h : Stamped q₀ q) (e : EntryRef) (now : Time) :
    Stamped q₀ (q.enqueue e now) :=
  (managed_stamped q₀).tryPromote (q := q.append e) (h.of_entries rfl) now

theorem Stamped.abandon (h : Stamped q₀ q) (e : EntryRef) : Stamped q₀ (q.abandon e) := by
  unfold EndpointQueue.abandon
  split
  · exact h
  · exact h.of_entries rfl

theorem Stamped.release (h : Stamped q₀ q) (e : EntryRef) (now promoteAt : Time) :
    Stamped q₀ (q.release e now promoteAt) :=
  (managed_stamped q₀).tryPromote (q := q.finish e now) (h.of_entries rfl) promoteAt

theorem Stamped.getOrCreateSession (h : Stamped q₀ q) (r : Requester) (now : Time) :
    Stamped q₀ (q.getOrCreateSession r now).2 := by
  unfold EndpointQueue.getOrCreateSession
  split <;> exact h.of_entries rfl

theorem Stamped.holdWsSpot (h : Stamped q₀ q) {s : SessionRef} {now : Time} {q' : EndpointQueue}
    (hhold : q.holdWsSpot s now = some q') : Stamped q₀ q' := by
  unfold EndpointQueue.holdWsSpot at hhold
  split at hhold
  · obtain rfl := Option.some.inj hhold
    exact h.of_entries rfl
  · obtain ⟨-, hhold⟩ := Option.ite_none_right_eq_some.mp hhold
    obtain rfl := Option.some.inj hhold
    exact h.of_entries rfl

theorem Stamped.releaseWsSpot (h : Stamped q₀ q) (s : SessionRef) (now : Time) :
    Stamped q₀ (q.releaseWsSpot s now) := by
  unfold EndpointQueue.releaseWsSpot
  dsimp only
  split
  · exact (managed_stamped q₀).tryPromote (q := (q.endWs s).dropSpot s) (h.of_entries rfl) now
  · exact h.of_entries rfl

end EndpointQueue

namespace Phase

/-- The admission is held, and polls its client. -/
def isOnHold : Phase → Bool
  | .polling _ | .sleeping _ | .readyPolling _ | .readySleeping _ => true
  | _ => false

/-- The admission awaits a poll of its client. -/
def polls : Phase → Bool
  | .polling _ | .readyPolling _ => true
  | _ => false

theorem polls.isOnHold {phase : Phase} (h : phase.polls = true) : phase.isOnHold = true := by
  cases phase <;> first | rfl | exact absurd h Bool.false_ne_true

/-- The admission is at its readiness gate. -/
def isAtGate : Phase → Bool
  | .arrived | .probing => true
  | _ => false

/-- What the admission awaits may raise: a store write, or the power-on. -/
def canFail : Phase → Bool
  | .probing | .waking | .recording _ | .readyPolling _ => true
  | _ => false

/-- What the admission awaits has raised. -/
def Fails (phase : Phase) (input : Input) : Prop := phase.canFail = true ∧ input.failed = true

variable {phase : Phase}

end Phase

namespace Endpoint

open EndpointQueue (Stamped)

variable {E E' : Endpoint} {cfg : EndpointConfig} {t t' : Task} {q : EndpointQueue} {a : Int}
  {phase : Phase} {input start : Input} {i : Nat} {ops : List Op} {op : Op} {reply : Reply}

theorem stamped_pass {s : SessionRef} {q₀ q' : EndpointQueue} (h : Stamped q₀ q)
    (hpass : SpotPass q s q' phase) : Stamped q₀ q' := by
  cases hpass with
  | granted hhold => exact h.holdWsSpot hhold
  | refused => exact h
  | waits _ => exact h

/-- An admission that runs on leaves the entries of the others their times. -/
theorem Move.stamped (h : Move E t q a phase) : Stamped E.queue q := by
  have hself := Stamped.refl E.queue
  cases h with
  | begin _ => exact hself.getOrCreateSession _ _
  | join _ _ => exact (hself.newEntry _ _ _).enqueue _ _
  | abandon _ _ _ => exact hself.abandon _
  | leave _ _ _ => exact hself.release _ _ _
  | finish _ => exact hself.release _ _ _
  | connect _ hpass => exact stamped_pass (hself.getOrCreateSession _ _) hpass
  | retry _ hpass => exact stamped_pass hself hpass
  | disconnect _ => exact hself.releaseWsSpot _ _
  | _ => exact hself

theorem stamped_step (h : E.step op = some E') : Stamped E.queue E'.queue := by
  rcases step_cases h with ⟨request, -, rfl⟩ | ⟨i, input, t, q, a, phase, -, -, hmove, -, rfl⟩ |
    ⟨qop, q, -, hmanaged, hq, rfl⟩
  · exact Stamped.refl _
  · exact hmove.stamped
  · exact (EndpointQueue.managed_stamped E.queue).step (Stamped.refl _) hmanaged hq

/-! ### What a step knows -/

/-- The deadline of a hold that began at `start`. -/
def EndpointConfig.deadline (cfg : EndpointConfig) (start : Time) : Option Time :=
  if 0 < cfg.queueTimeout then some (start + cfg.queueTimeout) else none

/-- A poll of a hold that began at `start` finds that it is over. -/
structure Due (cfg : EndpointConfig) (start : Time) (input : Input) : Prop where
  connected : input.disconnected = false
  limited : 0 < cfg.queueTimeout
  elapsed : start + cfg.queueTimeout ≤ input.now

/-- The admission is held since `start`: in the queue, or for the endpoint to get ready. -/
def HeldSince (E : Endpoint) (start : Time) : Phase → Prop
  | .polling e | .sleeping e => e < E.queue.entries.next ∧ (E.queue.entries e).enqueuedAt = start
  | .readyPolling deadline | .readySleeping deadline => deadline = E.deadlineFrom start
  | _ => False

theorem HeldSince.isOnHold {start : Time} (h : E.HeldSince start phase) :
    phase.isOnHold = true := by
  cases phase <;> first | rfl | exact h.elim

theorem HeldSince.mono {start : Time} (h : E.HeldSince start phase)
    (hstamped : Stamped E.queue E'.queue) (hcfg : E'.cfg = E.cfg) : E'.HeldSince start phase := by
  cases phase with
  | polling e | sleeping e =>
      exact ⟨Nat.lt_of_lt_of_le h.1 hstamped.next_le, (hstamped.stamp e h.1).trans h.2⟩
  | readyPolling deadline | readySleeping deadline =>
      show deadline = E'.deadlineFrom start
      unfold deadlineFrom
      rw [hcfg]
      exact h
  | _ => exact h.elim

/-- Why the task `t` of `E` is given a reply when it runs on; `Since` says since which steps it is
held. -/
def Reason (E : Endpoint) (t : Task) (input : Input) (Since : Input → Prop) : Reply → Prop
  | .timedOut => (t.phase.polls = true ∧ ¬ t.phase.Fails input) ∧
      ∃ start, Since start ∧ Due E.cfg start.now input
  | .disconnected => (t.phase.polls = true ∧ ¬ t.phase.Fails input) ∧ input.disconnected = true
  | .failed => t.phase.Fails input ∨ t.request.raises = true
  | .leaked => t.request.raises = true
  | .notReady | .closed (some _) =>
      t.phase.isAtGate = true ∧ E.cfg.waitPolicy = .error ∧ E.queue.ready = false
  | .forwarded => t.phase.hasForwarded = true
  | .closed none => True

/-- What a task has learned when it runs on to `phase`, as far as its hold and its own answers are
concerned. -/
structure Learns (E : Endpoint) (t : Task) (input : Input) (E' : Endpoint) (phase : Phase) :
    Prop where
  reason : ∀ reply, phase = .ended reply → ∀ Since : Input → Prop,
    (t.phase.isOnHold = true → ∃ start, Since start ∧ E.HeldSince start.now t.phase) →
      E.Reason t input Since reply
  begins : phase.isOnHold = true → t.phase.isOnHold = false → E'.HeldSince input.now phase
  goesOn : phase.isOnHold = true → ∀ start, E.HeldSince start t.phase → E'.HeldSince start phase

/-- What is learned does not depend on the other tasks. -/
theorem Learns.advance (h : Learns E t input { E with queue := q, activeForwards := a } phase)
    (i : Nat) : Learns E t input (E.advance i t q a phase) phase :=
  { h with
    begins := fun hheld hnot => (h.begins hheld hnot).mono (Stamped.refl q) rfl
    goesOn := fun hheld start hstart =>
      (h.goesOn hheld start hstart).mono (Stamped.refl q) rfl }

/-- In the run `ops` the admission `i` is held since the step in which it learned `start`: before
that step it was not held, and in every state after it, it is held since `start.now`. -/
def HeldFrom (cfg : EndpointConfig) (ops : List Op) (i : Nat) (start : Input) : Prop :=
  ∃ before held, ops = before ++ .resume i start :: held ∧
    (∃ E t, exec step (Endpoint.init cfg) before = some E ∧ E.tasks[i]? = some t ∧
      t.phase.isOnHold = false) ∧
    ∀ held', held' <+: held → ∃ E t,
      exec step (Endpoint.init cfg) (before ++ .resume i start :: held') = some E ∧
        E.tasks[i]? = some t ∧ E.HeldSince start.now t.phase

theorem HeldFrom.begin (hbefore : exec step (Endpoint.init cfg) ops = some E)
    (ht : E.tasks[i]? = some t) (hnot : t.phase.isOnHold = false)
    (hafter : exec step (Endpoint.init cfg) (ops ++ [.resume i start]) = some E')
    (ht' : E'.tasks[i]? = some t') (hsince : E'.HeldSince start.now t'.phase) :
    HeldFrom cfg (ops ++ [.resume i start]) i start := by
  refine ⟨ops, [], rfl, ⟨E, t, hbefore, ht, hnot⟩, fun held' hprefix => ?_⟩
  obtain rfl := List.prefix_nil.mp hprefix
  exact ⟨E', t', hafter, ht', hsince⟩

theorem HeldFrom.snoc (h : HeldFrom cfg ops i start)
    (hafter : exec step (Endpoint.init cfg) (ops ++ [op]) = some E')
    (ht' : E'.tasks[i]? = some t') (hsince : E'.HeldSince start.now t'.phase) :
    HeldFrom cfg (ops ++ [op]) i start := by
  obtain ⟨before, held, rfl, hbegins, hheld⟩ := h
  refine ⟨before, held ++ [op], by simp, hbegins, fun held' hprefix => ?_⟩
  rcases List.prefix_concat_iff.mp hprefix with rfl | hprefix
  · exact ⟨E', t', by simpa using hafter, ht', hsince⟩
  · exact hheld held' hprefix

theorem HeldFrom.last (h : HeldFrom cfg ops i start)
    (hexec : exec step (Endpoint.init cfg) ops = some E) (ht : E.tasks[i]? = some t) :
    E.HeldSince start.now t.phase := by
  obtain ⟨before, held, rfl, -, hheld⟩ := h
  obtain ⟨E', t', hexec', ht', hsince⟩ := hheld held (List.prefix_refl held)
  obtain rfl := Option.some.inj (hexec.symm.trans hexec')
  obtain rfl := Option.some.inj (ht.symm.trans ht')
  exact hsince

/-- The admission `i` has been given the reply in a step of the run, and for a reason. -/
def Answered (cfg : EndpointConfig) (ops : List Op) (i : Nat) (reply : Reply) : Prop :=
  ∃ before input after E t, ops = before ++ .resume i input :: after ∧
    exec step (Endpoint.init cfg) before = some E ∧ E.tasks[i]? = some t ∧
    (E.run t input).map Prod.snd = some (.ended reply) ∧
    E.Reason t input (HeldFrom cfg before i) reply

theorem Answered.mono (h : Answered cfg ops i reply) (op : Op) :
    Answered cfg (ops ++ [op]) i reply := by
  obtain ⟨before, input, after, E, t, rfl, hrest⟩ := h
  exact ⟨before, input, after ++ [op], E, t, by simp, hrest⟩

/-- What is known of the admission `i`, a task `t`, after a run. -/
structure Known (cfg : EndpointConfig) (ops : List Op) (i : Nat) (t : Task) : Prop where
  held : t.phase.isOnHold = true → ∃ start, HeldFrom cfg ops i start
  answered : ∀ reply, t.phase = .ended reply → Answered cfg ops i reply

/-- Another step leaves alone what is known. -/
theorem Known.mono (h : Known cfg ops i t) (hexec : exec step (Endpoint.init cfg) ops = some E)
    (ht : E.tasks[i]? = some t) (hstep : E.step op = some E') (ht' : E'.tasks[i]? = some t)
    (hcfg : E'.cfg = E.cfg) : Known cfg (ops ++ [op]) i t where
  held := fun hheld => by
    obtain ⟨start, hstart⟩ := h.held hheld
    exact ⟨start, hstart.snoc (exec_snoc_eq_some.mpr ⟨E, hexec, hstep⟩) ht'
      ((hstart.last hexec ht).mono (stamped_step hstep) hcfg)⟩
  answered := fun reply hreply => (h.answered reply hreply).mono op

/-- The admission `i` runs on. -/
theorem Known.resume (h : Known cfg ops i t) (hexec : exec step (Endpoint.init cfg) ops = some E)
    (ht : E.tasks[i]? = some t) (hstep : E.step (.resume i input) = some E')
    (hrun : (E.run t input).map Prod.snd = some phase) (ht' : E'.tasks[i]? = some (t.moveTo phase))
    (hlearns : Learns E t input E' phase) :
    Known cfg (ops ++ [.resume i input]) i (t.moveTo phase) := by
  have hafter := exec_snoc_eq_some.mpr ⟨E, hexec, hstep⟩
  constructor
  · intro hheld
    cases hbefore : t.phase.isOnHold with
    | false => exact ⟨input, .begin hexec ht hbefore hafter ht' (hlearns.begins hheld hbefore)⟩
    | true =>
        obtain ⟨start, hstart⟩ := h.held hbefore
        exact ⟨start, hstart.snoc hafter ht'
          (hlearns.goesOn hheld start.now (hstart.last hexec ht))⟩
  · rintro reply rfl
    refine ⟨ops, input, [], E, t, rfl, hexec, ht, hrun, hlearns.reason reply rfl _ fun hheld => ?_⟩
    obtain ⟨start, hstart⟩ := h.held hheld
    exact ⟨start, hstart, hstart.last hexec ht⟩

end Endpoint

end Relay
