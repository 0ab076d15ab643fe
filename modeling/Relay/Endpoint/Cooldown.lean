import Relay.Endpoint.Fleet
import Relay.Queue.Surrender

/-!
# Relay.Endpoint.Cooldown

**The cooldown counts from the last response.** A tick starts the idle countdown of a session
with the reading its manager made before it polled, however long the polls took. A countdown is
in pace when it started no earlier than the session's last response; every operation keeps the
countdowns of the spot holders in pace, but for a tick that starts one with a reading the
response has overtaken (`StartsInPace`).

A spot that is surrendered in pace is surrendered after its cooldown or on a fresh report, and
the report is as fresh when the spot is given up as it was at the reading, if `StaysFresh`.
-/

namespace Relay

open Runs

/-! ### The countdown of a session -/

namespace Session

/-- The idle countdown of a known client started no earlier than its last response. -/
def InPace (x : Session) : Prop :=
  x.client ≠ "unknown" → ∀ t, x.idleSince = some t → x.lastRequestAt ≤ t

/-- A tick at `now` does not start the countdown of a known client before its last response. -/
def StartsInPace (cfg : QueueConfig) (now : Time) (x : Session) : Prop :=
  x.client ≠ "unknown" → x.idleSince = none → (x.recompute cfg now).idleSince ≠ none →
    x.lastRequestAt ≤ now

instance (cfg : QueueConfig) (now : Time) (x : Session) : Decidable (x.StartsInPace cfg now) :=
  inferInstanceAs (Decidable (_ → _ → _ → _))

variable {cfg : QueueConfig} {now : Time} {x : Session}

/-- A session without a countdown is in pace. -/
theorem inPace_of_none (h : x.idleSince = none) : x.InPace := by
  intro _ t ht
  exact absurd (h.symm.trans ht) (by simp)

theorem InPace.recompute (h : x.InPace) (hstart : x.StartsInPace cfg now) :
    (x.recompute cfg now).InPace := by
  intro hknown t ht
  change x.lastRequestAt ≤ t
  have hsince : x.idleSince.or (some now) = some t := (Option.ite_none_right_eq_some.mp ht).2
  cases hx : x.idleSince with
  | some since =>
      rw [hx] at hsince
      exact h hknown t (hx.trans hsince)
  | none =>
      rw [hx] at hsince
      obtain rfl := Option.some.inj hsince
      exact hstart hknown hx (by rw [ht]; simp)

/-- A session with something in flight has no countdown. -/
theorem recompute_idleSince_of_inflight (h : 0 < x.inflight) :
    (x.recompute cfg now).idleSince = none := by
  simp [Session.recompute, currentStatus, h]

/-- Why the spot of a known client's session is surrendered: its cooldown is over, or a fresh
report says that it waits, or one that is later than the last response that it is idle. -/
theorem due_recompute_cases (hknown : x.client ≠ "unknown")
    (h : (x.recompute cfg now).due cfg now = true) :
    (∃ since, (x.recompute cfg now).idleSince = some since ∧ since + cfg.sessionExpiry ≤ now) ∨
    (x.freshClientReport now = true ∧ (x.clientStatus = some .waiting ∨
      (cfg.immediateIdleRelease = true ∧ x.clientStatus = some .idle ∧
        x.lastRequestAt < x.clientStatusAt))) := by
  have hidle : ¬ 0 < x.inflight := by
    intro hrun
    rw [due_eq_false_of_inflight (x := x.recompute cfg now) hrun] at h
    exact Bool.false_ne_true h
  have hstatus : (x.recompute cfg now).status = (x.currentStatus cfg now).1 := rfl
  have hfresh : (x.recompute cfg now).freshClientReport now = x.freshClientReport now := rfl
  unfold due releaseDeadline at h
  rw [if_neg (show ¬ 0 < (x.recompute cfg now).inflight from hidle),
    if_pos (show (x.recompute cfg now).client ≠ "unknown" from hknown)] at h
  cases hsince : (x.recompute cfg now).idleSince with
  | none => simp [hsince] at h
  | some since =>
      rw [hsince, hstatus, hfresh] at h
      cases hcurrent : (x.currentStatus cfg now).1 with
      | busy => simp [hcurrent] at h
      | retry => simp [hcurrent] at h
      | waiting =>
          -- the status shows `waiting` only when the last report says so
          have hreport : x.clientStatus = some .waiting := by
            simp only [currentStatus, if_neg hidle, if_pos hknown] at hcurrent
            cases hx : x.clientStatus with
            | none => simp [hx] at hcurrent
            | some status =>
                rw [hx] at hcurrent
                dsimp only at hcurrent
                split at hcurrent
                · exact congrArg some hcurrent
                · exact absurd hcurrent (by simp)
          by_cases hnow : x.freshClientReport now
          · exact Or.inr ⟨hnow, Or.inl hreport⟩
          · left
            exact ⟨since, rfl, by simpa [hcurrent, hnow] using h⟩
      | idle =>
          by_cases himmediate : (cfg.immediateIdleRelease && x.clientStatus == some .idle
              && x.freshClientReport now && decide (x.lastRequestAt < x.clientStatusAt)) = true
          · simp only [Bool.and_eq_true, beq_iff_eq, decide_eq_true_eq] at himmediate
            obtain ⟨⟨⟨hflag, hreport⟩, hnow⟩, hlast⟩ := himmediate
            exact Or.inr ⟨hnow, Or.inr ⟨hflag, hreport, hlast⟩⟩
          · left
            rw [hcurrent] at h
            dsimp only at h
            rw [if_neg (show ¬ (cfg.immediateIdleRelease &&
              (x.recompute cfg now).clientStatus == some .idle && x.freshClientReport now &&
              decide ((x.recompute cfg now).lastRequestAt < (x.recompute cfg now).clientStatusAt))
              = true from himmediate)] at h
            exact ⟨since, rfl, of_decide_eq_true h⟩

/-- A report that is fresh is so at every earlier reading. -/
theorem freshClientReport_mono {t : Time} (hle : now ≤ t) (h : x.freshClientReport t = true) :
    x.freshClientReport now = true := by
  unfold freshClientReport at h ⊢
  simp only [Bool.and_eq_true, decide_eq_true_eq] at h ⊢
  exact ⟨h.1, lt_of_le_of_lt (sub_le_sub_right hle _) h.2⟩

end Session

/-- The spot of a known client may be taken at `t`: its cooldown is over, or it has a fresh
report at `t` that says it waits, or, with immediate release, that it is idle since its last
response. -/
def Surrender.DueAt (x : Surrender) (t : Time) : Prop :=
  x.session.client ≠ "unknown" →
    x.session.lastRequestAt + x.cfg.sessionExpiry ≤ t ∨
    (x.session.freshClientReport t = true ∧ (x.session.clientStatus = some .waiting ∨
      (x.cfg.immediateIdleRelease = true ∧ x.session.clientStatus = some .idle ∧
        x.session.lastRequestAt < x.session.clientStatusAt)))

instance (x : Surrender) (t : Time) : Decidable (x.DueAt t) :=
  inferInstanceAs (Decidable (_ → _ ∨ (_ ∧ (_ ∨ (_ ∧ _ ∧ _)))))

namespace EndpointQueue

variable {q q' : EndpointQueue} {C C' : SessionRef → Prop} {held : SessionRef → Nat}
  {e : EntryRef} {s : SessionRef} {now : Time} {f : Session → Session}

/-- Sessions with an entry in flight have no countdown, and the countdowns of the sessions that
hold a spot, or satisfy `C`, are in pace. -/
structure Paced (C : SessionRef → Prop) (q : EndpointQueue) : Prop where
  running : ∀ e ∈ q.running, (q.objs (q.sessionOf e)).idleSince = none
  inPace : ∀ s, (q.objs s).spotHeld = true ∨ C s → (q.objs s).InPace

namespace Paced

theorem init (cfg : QueueConfig) : Paced C (EndpointQueue.init cfg) where
  running := fun _ he => absurd he List.not_mem_nil
  inPace := fun _ _ => Session.inPace_of_none rfl

theorem mono (h : Paced C q) (hC : ∀ s, C' s → C s) : Paced C' q where
  running := h.running
  inPace := fun s hs => h.inPace s (hs.imp_right (hC s))

/-- One more session is in pace. -/
theorem extend (h : Paced C q) (hs : (q.objs s).InPace) : Paced (fun s' => C s' ∨ s = s') q where
  running := h.running
  inPace := by
    rintro s' (hheld | hold | rfl)
    · exact h.inPace s' (Or.inl hheld)
    · exact h.inPace s' (Or.inr hold)
    · exact hs

/-- A change that leaves all session objects alone. -/
theorem congr (h : Paced C q) (hobjs : q'.objs = q.objs)
    (hrunning : ∀ e ∈ q'.running, e ∈ q.running ∧ q'.sessionOf e = q.sessionOf e) :
    Paced C q' where
  running := by
    intro e he
    obtain ⟨hmem, hsession⟩ := hrunning e he
    rw [hobjs, hsession]
    exact h.running e hmem
  inPace := by
    rw [hobjs]
    exact h.inPace

/-- A change of one session. -/
theorem modify (h : Paced C q) (hobjs : q'.objs = q.objs.modify s f)
    (hrunning : ∀ e ∈ q'.running, q'.sessionOf e = s ∧ (f (q.objs s)).idleSince = none ∨
      e ∈ q.running ∧ q'.sessionOf e = q.sessionOf e ∧ q.sessionOf e ≠ s)
    (hpace : (f (q.objs s)).spotHeld = true ∨ C s → (f (q.objs s)).InPace) : Paced C q' where
  running := by
    intro e he
    rw [hobjs]
    rcases hrunning e he with ⟨hsession, hnone⟩ | ⟨hmem, hsession, hne⟩
    · rw [hsession, Heap.modify_self]
      exact hnone
    · rw [hsession, Heap.modify_of_ne _ _ hne]
      exact h.running e hmem
  inPace := by
    intro s' hs'
    rw [hobjs, Heap.modify_apply] at hs' ⊢
    split
    · rename_i heq
      subst heq
      rw [if_pos rfl] at hs'
      exact hpace hs'
    · rename_i hne
      rw [if_neg hne] at hs'
      exact h.inPace s' hs'

/-- A change that ends the countdown of the session. -/
theorem cleared (h : Paced C q) (hobjs : q'.objs = q.objs.modify s f)
    (hrunning : ∀ e ∈ q'.running, q'.sessionOf e = q.sessionOf e ∧
      (e ∈ q.running ∨ q.sessionOf e = s))
    (hnone : (f (q.objs s)).idleSince = none) : Paced C q' := by
  refine h.modify hobjs ?_ (fun _ => Session.inPace_of_none hnone)
  intro e he
  obtain ⟨hsession, hold⟩ := hrunning e he
  by_cases hs : q.sessionOf e = s
  · exact Or.inl ⟨hsession.trans hs, hnone⟩
  · exact Or.inr ⟨hold.resolve_right hs, hsession, hs⟩

/-- A change that leaves client, countdown and last response alone, and gives no spot. -/
theorem calm (h : Paced C q) (hobjs : q'.objs = q.objs.modify s f)
    (hrunning : ∀ e ∈ q'.running, e ∈ q.running ∧ q'.sessionOf e = q.sessionOf e)
    (hclient : ∀ x, (f x).client = x.client) (hsince : ∀ x, (f x).idleSince = x.idleSince)
    (hlast : ∀ x, (f x).lastRequestAt = x.lastRequestAt)
    (hheld : ∀ x, (f x).spotHeld = true → x.spotHeld = true) : Paced C q' := by
  refine h.modify hobjs ?_ ?_
  · intro e he
    obtain ⟨hmem, hsession⟩ := hrunning e he
    by_cases hs : q.sessionOf e = s
    · exact Or.inl ⟨hsession.trans hs, by rw [hsince, ← hs]; exact h.running e hmem⟩
    · exact Or.inr ⟨hmem, hsession, hs⟩
  · intro hs
    have hold := h.inPace s (hs.imp_left (hheld _))
    intro hknown t ht
    rw [hclient] at hknown
    rw [hsince] at ht
    rw [hlast]
    exact hold hknown t ht

/-! ### The operations -/

theorem promote (h : Paced C q) (now : Time) (e : EntryRef) : Paced C (q.promote now e) := by
  refine h.cleared (promote_objs q now e) ?_ rfl
  intro e' he'
  rw [promote_running] at he'
  refine ⟨promote_sessionOf q now e e', ?_⟩
  rcases List.mem_append.mp he' with hold | hnew
  · exact Or.inl hold
  · rw [List.mem_singleton.mp hnew]
    exact Or.inr rfl

theorem tryPromote (h : Paced C q) (now : Time) : Paced C (q.tryPromote now) :=
  tryPromote_induction (fun _ e hq _ => hq.promote now e) h

theorem getOrCreateSession (h : Paced C q) (r : Requester) (now : Time) :
    Paced C (q.getOrCreateSession r now).2 := by
  unfold EndpointQueue.getOrCreateSession
  split
  · -- neither a session object that is new nor the others have a countdown out of pace
    have hfresh : (q.objs.alloc (Session.new r now) q.objs.next).idleSince = none := by
      rw [Heap.alloc_self]
      rfl
    constructor
    · intro e he
      by_cases hs : q.sessionOf e = q.objs.next
      · exact hs ▸ hfresh
      · exact (congrArg Session.idleSince (Heap.alloc_of_ne _ _ hs)).trans (h.running e he)
    · intro s hs
      by_cases hnew : s = q.objs.next
      · subst hnew
        exact Session.inPace_of_none hfresh
      · have hold : q.objs.alloc (Session.new r now) s = q.objs s := Heap.alloc_of_ne _ _ hnew
        change (q.objs.alloc (Session.new r now) s).spotHeld = true ∨ C s at hs
        change (q.objs.alloc (Session.new r now) s).InPace
        rw [hold] at hs ⊢
        exact h.inPace s hs
  · exact h.cleared (f := Session.revive r now) rfl (fun e he => ⟨rfl, Or.inl he⟩) rfl

/-- The session of a request has no countdown when it has just been looked up. -/
theorem getOrCreateSession_inPace (q : EndpointQueue) (r : Requester) (now : Time) :
    ((q.getOrCreateSession r now).2.objs (q.getOrCreateSession r now).1).InPace := by
  refine Session.inPace_of_none ?_
  unfold EndpointQueue.getOrCreateSession
  split
  · exact congrArg Session.idleSince (Heap.alloc_self q.objs (Session.new r now))
  · exact congrArg Session.idleSince (Heap.modify_self q.objs _ (Session.revive r now))

theorem enqueue (h : Paced C q) (hacc : Accounts q held) (s : SessionRef) (path : String)
    (now promoteAt : Time) :
    Paced C ((q.newEntry s path now).2.enqueue (q.newEntry s path now).1 promoteAt) := by
  have hmade : Paced C (q.newEntry s path now).2 := h.congr rfl fun e he =>
    ⟨he, congrArg QueueEntry.session (Heap.alloc_of_lt _ _ (hacc.running_done e he).1)⟩
  have happended : Paced C ((q.newEntry s path now).2.append (q.newEntry s path now).1) := by
    refine hmade.calm (append_objs _ _) ?_ (fun _ => rfl) (fun _ => rfl) (fun _ => rfl)
      (fun _ hx => hx)
    intro e he
    rw [EndpointQueue.running, append_log, runningOf_snoc_enqueued] at he
    exact ⟨he, rfl⟩
  exact happended.tryPromote promoteAt

theorem abandon (h : Paced C q) (e : EntryRef) : Paced C (q.abandon e) := by
  unfold EndpointQueue.abandon
  split
  · exact h
  · refine h.calm (f := Session.unqueued) rfl ?_ (fun _ => rfl) (fun _ => rfl) (fun _ => rfl)
      (fun _ hx => hx)
    intro e' he'
    rw [EndpointQueue.running, runningOf_snoc_abandoned] at he'
    exact ⟨he', rfl⟩

/-- A response restarts no countdown: while its request ran there was none. -/
theorem release (h : Paced C q) (he : e ∈ q.running) (now promoteAt : Time) :
    Paced C (q.release e now promoteAt) := by
  have hfinished : Paced C (q.finish e now) := by
    refine h.cleared (finish_objs q e now) ?_ (h.running e he)
    intro e' he'
    rw [EndpointQueue.running, finish, runningOf_snoc_released] at he'
    exact ⟨rfl, Or.inl (List.mem_of_mem_erase he')⟩
  exact hfinished.tryPromote promoteAt

theorem freeSpot (h : Paced C q) (s : SessionRef) (key : Key) : Paced C (q.freeSpot s key) :=
  h.cleared (freeSpot_objs q s key) (fun _ he => ⟨rfl, Or.inl he⟩) rfl

theorem releaseSession (h : Paced C q) (client sessionId : String) (now : Time) :
    Paced C (q.releaseSession client sessionId now).2 := by
  rcases releaseSession_cases q client sessionId now with ⟨s, -, -, heq⟩ | ⟨-, heq⟩
  · rw [heq]
    exact (h.freeSpot s _).tryPromote now
  · rw [heq]
    exact h

theorem acquireSpot (h : Paced C q) (hs : (q.objs s).InPace) (now : Time) :
    Paced C (q.acquireSpot s now) := by
  refine h.modify (acquireSpot_objs q s now) ?_ (fun _ => hs)
  intro e he
  by_cases hse : q.sessionOf e = s
  · exact Or.inl ⟨hse, by rw [← hse]; exact h.running e he⟩
  · exact Or.inr ⟨he, rfl, hse⟩

theorem holdWsSpot (h : Paced C q) (hs : (q.objs s).InPace)
    (hhold : q.holdWsSpot s now = some q') : Paced C q' := by
  have hcount : ∀ {q : EndpointQueue}, Paced C q → Paced C (q.countWs s) := fun hq =>
    hq.calm (countWs_objs _ s) (fun e he => ⟨he, rfl⟩) (fun _ => rfl) (fun _ => rfl)
      (fun _ => rfl) (fun _ hx => hx)
  rcases holdWsSpot_cases hhold with ⟨-, rfl⟩ | ⟨-, -, rfl⟩
  · exact hcount h
  · exact hcount (h.acquireSpot hs now)

theorem releaseWsSpot (h : Paced C q) (s : SessionRef) (now : Time) :
    Paced C (q.releaseWsSpot s now) := by
  have hended : Paced C (q.endWs s) :=
    h.calm (endWs_objs q s) (fun e he => ⟨he, rfl⟩) (fun _ => rfl) (fun _ => rfl) (fun _ => rfl)
      (fun _ hx => hx)
  rcases releaseWsSpot_cases q s now with ⟨-, heq⟩ | ⟨-, heq⟩
  · rw [heq]
    refine Paced.tryPromote ?_ now
    exact hended.calm (dropSpot_objs _ s) (fun e he => ⟨he, rfl⟩) (fun _ => rfl) (fun _ => rfl)
      (fun _ => rfl) (fun _ hx => absurd hx (by simp [Session.dropped]))
  · rw [heq]
    exact hended

theorem recomputeAt (h : Paced C q) (hacc : Accounts q held)
    (hstart : (q.objs s).spotHeld = true ∨ C s → (q.objs s).StartsInPace q.cfg now) :
    Paced C (q.recomputeAt s now) := by
  refine h.modify (f := Session.recompute q.cfg now) rfl ?_ ?_
  · intro e he
    by_cases hse : q.sessionOf e = s
    · exact Or.inl ⟨hse, Session.recompute_idleSince_of_inflight (hse ▸ hacc.inflight_pos he)⟩
    · exact Or.inr ⟨he, rfl, hse⟩
  · intro hs
    exact (h.inPace s hs).recompute (hstart hs)

theorem visit (h : Paced C q) (hacc : Accounts q held) {key : Key} {promoteAt : Time}
    (hstart : (q.objs s).spotHeld = true ∨ C s → (q.objs s).StartsInPace q.cfg now) :
    Paced C (q.visit now promoteAt key s).1 := by
  have hrec := h.recomputeAt hacc hstart
  rcases visit_cases q now promoteAt key s with ⟨-, heq⟩ | ⟨-, -, -, -, heq⟩ | ⟨-, -, heq⟩
  · rw [heq]
    exact (hrec.freeSpot s key).tryPromote promoteAt
  · rw [heq]
    exact hrec.congr rfl fun e he => ⟨he, rfl⟩
  · rw [heq]
    exact hrec

/-- The queue in which `tick` makes a visit, and the one it leaves. -/
theorem tick (h : Paced C q) (hacc : Accounts q held) {promoteAt : Key → Time}
    (hstart : ∀ v ∈ q.visits now promoteAt, (v.1.objs v.2.2).spotHeld = true ∨ C v.2.2 →
      (v.1.objs v.2.2).StartsInPace v.1.cfg now) :
    Paced C (q.tick now promoteAt).1 ∧ ∀ v ∈ q.visits now promoteAt, Paced C v.1 := by
  have hvisit : ∀ (q : EndpointQueue) key s, Accounts q held ∧ Paced C q →
      q.sessions.get? key = some s →
      ((q.objs s).spotHeld = true ∨ C s → (q.objs s).StartsInPace q.cfg now) →
      Accounts (q.visit now (promoteAt key) key s).1 held ∧
        Paced C (q.visit now (promoteAt key) key s).1 := by
    intro q key s hq hs hstart
    exact ⟨managed_accounts.visit hq.1 hs now (promoteAt key), hq.2.visit hq.1 hstart⟩
  refine ⟨(tick_induction hvisit hstart ⟨hacc, h⟩).2, fun v hv => ?_⟩
  exact (visits_induction hvisit hstart ⟨hacc, h⟩ v hv).1.2

end Paced

end EndpointQueue

/-! ### The steps of a task -/

/-- The session a connection waits for a spot for. -/
def Phase.connecting? : Phase → Option SessionRef
  | .spotWaiting s _ => some s
  | _ => none

namespace Endpoint

open EndpointQueue (Paced)

variable {E : Endpoint} {cfg : EndpointConfig} {t : Task} {q q₀ : EndpointQueue} {a : Int}
  {phase : Phase} {C : SessionRef → Prop}

/-- A connection waits for a spot of the session. -/
def connecting (E : Endpoint) (s : SessionRef) : Bool :=
  E.tasks.any (fun t => decide (t.phase.connecting? = some s))

theorem connecting_of_mem (ht : t ∈ E.tasks) {s : SessionRef} (hs : t.phase.connecting? = some s) :
    E.connecting s = true :=
  List.any_eq_true.mpr ⟨t, ht, decide_eq_true hs⟩

theorem connecting_advance {i : Nat} {s : SessionRef}
    (h : (E.advance i t q a phase).connecting s = true) :
    E.connecting s = true ∨ phase.connecting? = some s := by
  obtain ⟨t', ht', hs⟩ := List.any_eq_true.mp h
  rcases List.mem_or_eq_of_mem_set ht' with hold | rfl
  · exact Or.inl (connecting_of_mem hold (of_decide_eq_true hs))
  · exact Or.inr (of_decide_eq_true hs)

theorem pending?_of_connecting? {s : SessionRef} (h : phase.connecting? = some s) :
    phase.pending? = some s := by
  cases phase <;> first | exact h | exact absurd h (by simp [Phase.connecting?])

/-- One pass of the loop of `_hold_ws_spot`. A connection that waits on keeps its session in
pace. -/
theorem SpotPass.paced {s : SessionRef} (h : SpotPass q₀ s q phase) (hpaced : Paced C q₀)
    (hs : (q₀.objs s).InPace) : Paced (fun s' => C s' ∨ phase.connecting? = some s') q := by
  cases h with
  | granted hhold =>
      refine (hpaced.holdWsSpot hs hhold).mono fun s' hs' => hs'.resolve_right ?_
      simp [Phase.connecting?]
  | refused => exact hpaced.mono fun s' hs' => hs'.resolve_right (by simp [Phase.connecting?])
  | waits hfull => exact (hpaced.extend hs).mono fun s' hs' => hs'.imp_right Option.some.inj

theorem Move.paced (h : Move E t q a phase) (hbalanced : Balanced cfg E) (ht : t ∈ E.tasks)
    (hpaced : Paced (fun s => E.connecting s = true) E.queue) :
    Paced (fun s => E.connecting s = true ∨ phase.connecting? = some s) q := by
  -- most phases wait for no spot
  have hnone : ∀ {q : EndpointQueue} {phase : Phase}, phase.pending? = none ∨
      phase.connecting? = none → Paced (fun s => E.connecting s = true) q →
      Paced (fun s => E.connecting s = true ∨ phase.connecting? = some s) q := by
    intro q phase hphase hq
    refine hq.mono fun s hs => hs.resolve_right fun hconnecting => ?_
    rcases hphase with hpending | hphase
    · exact absurd (hpending.symm.trans (pending?_of_connecting? hconnecting)) (by simp)
    · exact absurd (hphase.symm.trans hconnecting) (by simp)
  have hrunning : ∀ e, t.phase.entryRef? = some e → (E.queue.entries e).done = true →
      e ∈ E.queue.running := fun e he hdone =>
    hbalanced.steady.running_of_done (isOpen_of_mem hbalanced.owners_eq ht he) hdone
  cases h with
  | idle hidle hidle' => exact hnone (Or.inl (Phase.isIdle.pending? hidle')) hpaced
  | begin hidle => exact hnone (Or.inr rfl) (hpaced.getOrCreateSession _ _)
  | join hphase hhead =>
      exact hnone (Or.inl (hhead ▸ pending?_slotHead _ _))
        (hpaced.enqueue hbalanced.accounts _ _ _ _)
  | head hphase => exact hnone (Or.inl (pending?_slotHead _ _)) hpaced
  | abandon hphase hdone hreply => exact hnone (Or.inr rfl) (hpaced.abandon _)
  | leave hphase hdone hreply =>
      exact hnone (Or.inr rfl) (hpaced.release (hrunning _ (by rw [hphase]; rfl) hdone) _ _)
  | finish hphase =>
      have hstage := hbalanced.running t ht _ hphase
      rw [hbalanced.lifecycle.running_iff] at hstage
      exact hnone (Or.inr rfl) (hpaced.release hstage _ _)
  | forward hidle hphase =>
      exact hnone (Or.inl (by rcases hphase with rfl | rfl | rfl <;> rfl)) hpaced
  | connect hidle hspot =>
      exact hspot.paced (hpaced.getOrCreateSession _ _) (Paced.getOrCreateSession_inPace _ _ _)
  | retry hphase hspot =>
      refine hspot.paced hpaced (hpaced.inPace _ (Or.inr (connecting_of_mem ht ?_)))
      rw [hphase]
      rfl
  | disconnect hphase => exact hnone (Or.inr rfl) (hpaced.releaseWsSpot _ _)
  | _ => exact hnone (Or.inr rfl) hpaced

/-- Every step of an endpoint that is none of its manager keeps the countdowns in pace. -/
theorem paced_step {op : Op} {E' : Endpoint} (hbalanced : Balanced cfg E)
    (hpaced : Paced (fun s => E.connecting s = true) E.queue) (h : E.step op = some E')
    (hop : op.isManagers = false) : Paced (fun s => E'.connecting s = true) E'.queue := by
  rcases step_cases h with ⟨request, rfl, rfl⟩ |
    ⟨i, input, t, q, a, phase, rfl, ht, hmove, -, rfl⟩ | ⟨qop, q, rfl, hmanaged, hqstep, rfl⟩
  · refine hpaced.mono fun s hs => ?_
    obtain ⟨t, ht, hphase⟩ := List.any_eq_true.mp hs
    rcases List.mem_append.mp ht with hold | hnew
    · exact connecting_of_mem hold (of_decide_eq_true hphase)
    · rw [List.mem_singleton.mp hnew] at hphase
      exact absurd (of_decide_eq_true hphase) (by simp [Phase.connecting?])
  · exact (hmove.paced hbalanced (List.mem_of_getElem? ht) hpaced).mono fun s =>
      connecting_advance
  · change EndpointQueue.step E.queue qop = some q at hqstep
    change Paced (fun s => E.connecting s = true) q
    cases qop with
    | releaseSession client sessionId promoteAt =>
        obtain rfl := Option.some.inj hqstep
        exact hpaced.releaseSession client sessionId promoteAt
    | setReady ready =>
        obtain rfl := Option.some.inj hqstep
        exact hpaced.congr rfl fun e he => ⟨he, rfl⟩
    | tryPromote now =>
        obtain rfl := Option.some.inj hqstep
        exact hpaced.tryPromote now
    | tick _ _ | setClientStatus _ _ _ _ | setSharedSpotKey _ _ =>
        exact absurd hop (by simp [Op.isManagers])
    | admitQueued _ _ _ _ _ | abandon _ | release _ _ _ =>
        exact absurd hmanaged Bool.false_ne_true

end Endpoint

/-! ### The ticks of a fleet -/

/-- A call of `queue.tick`: the endpoint as the call finds it, and the readings. -/
structure TickCall where
  endpoint : Endpoint
  now : Time
  promoteAt : Key → Time

/-- No countdown is started before a last response the reading does not know of, and no report
that is fresh at the reading has gone stale when the spot is given up. -/
def TickCall.KeepsPace (c : TickCall) : Prop :=
  ∀ v ∈ c.endpoint.queue.visits c.now c.promoteAt,
    ((v.1.objs v.2.2).spotHeld = true ∨ c.endpoint.connecting v.2.2 = true →
      (v.1.objs v.2.2).StartsInPace v.1.cfg c.now) ∧
    (v.1.surrenders v.2.2 c.now = true → (v.1.objs v.2.2).freshClientReport c.now = true →
      (v.1.objs v.2.2).freshClientReport (c.promoteAt v.2.1) = true)

instance (c : TickCall) : Decidable c.KeepsPace :=
  inferInstanceAs (Decidable (∀ v ∈ _, (_ → _) ∧ (_ → _ → _)))

/-- The countdowns of the spot holders of a station are in pace. -/
def Station.Paced (st : Station) : Prop :=
  st.endpoint.queue.Paced (fun s => st.endpoint.connecting s = true)

namespace Fleet

open EndpointQueue (Paced)

variable {F F' : Fleet}

/-- The call of `queue.tick` in a step, if there is one. -/
def tickOf (F : Fleet) (l : Op × Time) : Option TickCall :=
  match l.1 with
  | .endpoint _ _ => none
  | .start i answer | .resume i answer =>
      (F.stations[i]?).bind (fun st => (F.segment st l.1).bind (fun result =>
        match result.2 with
        | .surrendering pass =>
            some ⟨{ st.endpoint with queue := result.1.queue }, pass.now, answer.promoteAt⟩
        | _ => none))

/-- The condition on a step: the tick it makes, if it makes one, keeps the countdowns in pace. -/
def KeepsPace (F : Fleet) (l : Op × Time) : Prop := ∀ c ∈ F.tickOf l, c.KeepsPace

instance (F : Fleet) (l : Op × Time) : Decidable (F.KeepsPace l) :=
  inferInstanceAs (Decidable (∀ c ∈ F.tickOf l, c.KeepsPace))

theorem ManagerStep.tickOf {i : Nat} {l : Op × Time} {answer : Answer} {st : Station}
    {result : Desk × ManagerPhase} (h : F.ManagerStep i l.1 answer l.2 st result) {pass : Pass}
    (hphase : result.2 = .surrendering pass) :
    F.tickOf l = some ⟨{ st.endpoint with queue := result.1.queue }, pass.now,
      answer.promoteAt⟩ := by
  have hop := h.op_eq
  have hsegment := h.segment
  obtain ⟨op, clock⟩ := l
  dsimp only at hop hsegment
  rcases hop with rfl | rfl <;> simp [Fleet.tickOf, h.station, hsegment, hphase]

/-- Sharing a spot and reporting a status start no countdown. -/
theorem ManagerStep.paced {i : Nat} {op : Op} {answer : Answer} {clock : Time} {st : Station}
    {result : Desk × ManagerPhase} (h : F.ManagerStep i op answer clock st result)
    {C : SessionRef → Prop} (hpaced : st.endpoint.queue.Paced C) : result.1.queue.Paced C := by
  refine h.written (I := fun q => q.Paced C) ?_ ?_ hpaced
  · intro q s key hq
    exact hq.calm (f := Session.sharing key) rfl (fun _ he => ⟨he, rfl⟩) (fun _ => rfl)
      (fun _ => rfl) (fun _ => rfl) (fun _ hx => hx)
  · intro q s data pending reported hq
    refine hq.calm rfl (fun _ he => ⟨he, rfl⟩)
      (Session.report_proj Session.client (fun _ _ _ _ => rfl) data pending reported)
      (Session.report_proj Session.idleSince (fun _ _ _ _ => rfl) data pending reported)
      (Session.report_proj Session.lastRequestAt (fun _ _ _ _ => rfl) data pending reported)
      (fun x hx => ?_)
    rwa [(Session.cosmetic_report data pending reported).spotHeld] at hx

/-- A manager makes no session known to its queue, and forgets none, before its tick. -/
theorem ManagerStep.sessions_eq {i : Nat} {op : Op} {answer : Answer} {clock : Time}
    {st : Station} {result : Desk × ManagerPhase}
    (h : F.ManagerStep i op answer clock st result) :
    result.1.queue.sessions = st.endpoint.queue.sessions :=
  h.written (I := fun q => q.sessions = st.endpoint.queue.sessions) (fun _ _ _ hq => hq)
    (fun _ _ _ _ _ hq => hq) rfl

/-- The queue a manager leaves at its call of `queue.tick` counts right. -/
theorem ManagerStep.accounts {i : Nat} {op : Op} {answer : Answer} {clock : Time} {st : Station}
    {result : Desk × ManagerPhase} (h : F.ManagerStep i op answer clock st result)
    (hst : Orderly F.clock st) :
    result.1.queue.Accounts st.endpoint.tunnels := by
  obtain ⟨cfg, hbalanced⟩ := hst.balanced
  exact h.cosmetic EndpointQueue.managed_accounts.cosmetic hbalanced.accounts

theorem ManagerStep.paced_settled {i : Nat} {l : Op × Time} {answer : Answer} {st : Station}
    {result : Desk × ManagerPhase} (h : F.ManagerStep i l.1 answer l.2 st result)
    (hpaced : st.Paced) (hst : Orderly F.clock st) (hkeeps : F.KeepsPace l)
    (source : SessionRef → Time) : (settled st source answer result).Paced := by
  have hresult := h.paced hpaced
  unfold settled
  split
  · rename_i pass hphase
    have hcall := hkeeps _ (h.tickOf hphase)
    exact (hresult.tick (h.accounts hst) fun v hv => (hcall v hv).1).1
  · exact hresult

/-- A surrender in pace: the spot may be taken at the reading of the tick and at every instant
up to the one at which it is given up. -/
theorem surrendersOf_due {q : EndpointQueue} {C : SessionRef → Prop} {held : SessionRef → Nat}
    (hpaced : q.Paced C) (hacc : q.Accounts held) {now : Time} {promoteAt : Key → Time}
    (hstart : ∀ v ∈ q.visits now promoteAt, (v.1.objs v.2.2).spotHeld = true ∨ C v.2.2 →
      (v.1.objs v.2.2).StartsInPace v.1.cfg now)
    (hfresh : ∀ v ∈ q.visits now promoteAt, v.1.surrenders v.2.2 now = true →
      (v.1.objs v.2.2).freshClientReport now = true →
      (v.1.objs v.2.2).freshClientReport (promoteAt v.2.1) = true)
    (source : SessionRef → Time) :
    ∀ x ∈ surrendersOf q source now promoteAt, ∀ t, now ≤ t → t ≤ x.at' → x.DueAt t := by
  intro x hx t hnow hle hknown
  obtain ⟨v, hv, rfl⟩ := List.mem_map.mp hx
  obtain ⟨hvisit, hsurrender⟩ := List.mem_filter.mp hv
  have hcfg : v.1.cfg = q.cfg :=
    (EndpointQueue.managed_cfg.visits rfl now promoteAt v hvisit).1
  have hheld : (v.1.objs v.2.2).spotHeld = true := by
    simp only [EndpointQueue.surrenders, Bool.and_eq_true] at hsurrender
    exact hsurrender.1
  have hdue : ((v.1.objs v.2.2).recompute v.1.cfg now).due v.1.cfg now = true := by
    simp only [EndpointQueue.surrenders, Bool.and_eq_true] at hsurrender
    exact hsurrender.2
  rcases Session.due_recompute_cases hknown hdue with ⟨since, hsince, hover⟩ | ⟨hreport, hwhy⟩
  · left
    have hpace := (((hpaced.tick hacc hstart).2 v hvisit).inPace v.2.2 (Or.inl hheld)).recompute
      (hstart v hvisit (Or.inl hheld))
    have hlast : (v.1.objs v.2.2).lastRequestAt ≤ since := hpace hknown since hsince
    calc (v.1.objs v.2.2).lastRequestAt + q.cfg.sessionExpiry
        ≤ since + q.cfg.sessionExpiry := by gcongr
      _ = since + v.1.cfg.sessionExpiry := by rw [hcfg]
      _ ≤ now := hover
      _ ≤ t := hnow
  · right
    rw [hcfg] at hwhy
    exact ⟨Session.freshClientReport_mono hle (hfresh v hvisit hsurrender hreport), hwhy⟩

/-- The keys of the visits of a tick are those of its session table. -/
theorem mem_keys_of_visit {q : EndpointQueue} {now : Time} {promoteAt : Key → Time}
    {v : EndpointQueue × Key × SessionRef} (hv : v ∈ q.visits now promoteAt) :
    v.2.1 ∈ q.sessions.keys := by
  have hentry : v.2 ∈ (q.visits now promoteAt).map Prod.snd := List.mem_map_of_mem hv
  rw [EndpointQueue.visits, EndpointQueue.visitsOf_map_snd] at hentry
  exact List.mem_map_of_mem (f := Prod.fst) hentry

/-- The surrenders of a step are in pace when its tick is. -/
theorem ManagerStep.surrenders_due {i : Nat} {l : Op × Time} {answer : Answer} {st : Station}
    {result : Desk × ManagerPhase} (h : F.ManagerStep i l.1 answer l.2 st result)
    (hpaced : st.Paced) (hst : Orderly F.clock st) (hkeeps : F.KeepsPace l)
    (source : SessionRef → Time) :
    ∀ x ∈ surrendersAfter source answer result,
      x.now ≤ x.at' ∧ ∀ t, x.now ≤ t → t ≤ x.at' → x.DueAt t := by
  intro x hx
  obtain ⟨pass, hpass, hnow⟩ := h.pass_now hst.pass_now
  unfold surrendersAfter at hx
  split at hx
  · rename_i pass' hphase
    obtain rfl : pass = pass' := by
      rw [hphase] at hpass
      exact (Option.some.inj hpass).symm
    have hcall := hkeeps _ (h.tickOf hphase)
    have hdue := surrendersOf_due (C := fun s => st.endpoint.connecting s = true)
      (h.paced hpaced) (h.accounts hst)
      (fun v hv => (hcall v hv).1) (fun v hv => (hcall v hv).2) source x hx
    obtain ⟨v, hv, rfl⟩ := List.mem_map.mp hx
    refine ⟨?_, hdue⟩
    have hkey := mem_keys_of_visit (List.mem_filter.mp hv).1
    rw [h.sessions_eq] at hkey
    exact (hnow.trans h.now_le_stampAt).trans (h.promoteAt v.2.1 hkey).1
  · exact absurd hx List.not_mem_nil

/-- **A spot is kept for its cooldown after the last response, as long as no tick starts a
countdown too early.** In every run whose ticks start no countdown before a response their
reading does not know of, and go by no report that has gone stale meanwhile, the spot of a known
client is given up no earlier than its cooldown after the last response, unless a report that is
fresh at that time says that the session waits, or, with immediate release, that it is idle since
its last response. -/
theorem cooldown_of_run {cfgs : List EndpointConfig} {pollers : OrdDict String Poller}
    {clock : Time} {ls : List (Op × Time)}
    (h : Run (Steps step KeepsPace) (init cfgs pollers clock) ls F) :
    ∀ x ∈ F.surrenders, x.now ≤ x.at' ∧ ∀ t, x.now ≤ t → t ≤ x.at' → x.DueAt t := by
  have hinv : (∀ st ∈ F.stations, Orderly F.clock st ∧ st.Paced) ∧
      ∀ x ∈ F.surrenders, x.now ≤ x.at' ∧ ∀ t, x.now ≤ t → t ≤ x.at' → x.DueAt t := by
    refine h.invariant (I := fun F => (∀ st ∈ F.stations, Orderly F.clock st ∧ st.Paced) ∧
      ∀ x ∈ F.surrenders, x.now ≤ x.at' ∧ ∀ t, x.now ≤ t → t ≤ x.at' → x.DueAt t) ?_ ?_
    · intro F l F' hF hstep
      obtain ⟨hstations, hsurrenders⟩ := hF
      obtain ⟨hstep, hkeeps⟩ := hstep
      have horderly := orderly_step hstep fun st hst => (hstations st hst).1
      refine ⟨fun st hst => ⟨horderly st hst, ?_⟩, ?_⟩
      · refine (stations_step (J := fun t st => Orderly t st ∧ st.Paced) ?_ ?_ ?_ hstep hstations
          st hst).2
        · exact fun t t' st hle hst => ⟨hst.1.mono hle, hst.2⟩
        · intro i op st E _ hendpoint hst
          obtain ⟨cfg, hbalanced⟩ := hst.1.balanced
          exact ⟨hst.1.endpoint hendpoint,
            Endpoint.paced_step hbalanced hst.2 hendpoint.step hendpoint.notManagers⟩
        · exact fun i answer st result hmanager hst =>
            ⟨hst.1.manager hmanager _, hmanager.paced_settled hst.2 hst.1 hkeeps _⟩
      · rcases step_cases hstep with ⟨i, op, st, E, -, -, rfl⟩ | ⟨i, answer, st, result, hm, rfl⟩
        · exact hsurrenders
        · intro x hx
          have hst := hstations st (List.mem_of_getElem? hm.station)
          rcases List.mem_append.mp hx with hold | hnew
          · exact hsurrenders x hold
          · exact hm.surrenders_due hst.2 hst.1 hkeeps _ x hnew
    · refine ⟨fun st hst => ⟨orderly_init cfgs pollers clock st hst, ?_⟩,
        fun x hx => absurd hx List.not_mem_nil⟩
      obtain ⟨cfg, -, rfl⟩ := List.mem_map.mp hst
      exact Paced.init _
  exact hinv.2

/-- One endpoint with one spot, which is kept for ten minutes. -/
def oneEndpoint : Fleet := init [.queued (.ofArgs 1 1 300 600 false false)] oneClient 0

/-- The request is answered before a pass of the manager. -/
def answeredBeforePass : List (Op × Time) :=
  admission ++ [runs 0 0 100, wakes 0 110, fails 0 112, wakes 0 711, fails 0 712]

theorem cooldown_of_run_answeredBeforePass :
    ∃ F, exec (guarded step KeepsPace) oneEndpoint answeredBeforePass = some F ∧
      ∃ x ∈ F.surrenders, x.session.key = ("opencode", "a") ∧ x.session.lastRequestAt = 100 ∧
        x.at' = 712 ∧ x.DueAt 712 := by
  have hview : (exec (guarded step KeepsPace) oneEndpoint answeredBeforePass).map
      (fun F => F.surrenders.map (fun x => (x.session.key, x.session.lastRequestAt, x.at'))) =
        some [(("opencode", "a"), 100, 712)] := by decide +kernel
  obtain ⟨F, hexec, hF⟩ := Option.map_eq_some_iff.mp hview
  obtain ⟨x, hx, hmap⟩ := List.mem_map.mp (hF ▸ List.mem_singleton.mpr rfl :
    (("opencode", "a"), (100 : Time), (712 : Time)) ∈ F.surrenders.map _)
  obtain ⟨hkey, hmap⟩ := Prod.mk.inj hmap
  obtain ⟨hlast, hat⟩ := Prod.mk.inj hmap
  have hdue := cooldown_of_run (run_of_exec_guarded hexec) x hx
  exact ⟨F, hexec, x, hx, hkey, hlast, hat, hdue.2 712 (hat ▸ hdue.1) hat.ge⟩

/-- The request is answered while the manager waits for the status API. -/
def answeredDuringPass : List (Op × Time) :=
  admission ++ [wakes 0 10, runs 0 0 100, fails 0 101, wakes 0 611, fails 0 612]

/-- The spot is given up 88 seconds before its cooldown is over. -/
theorem cooldown_counterexample :
    ∃ F, exec step oneEndpoint answeredDuringPass = some F ∧
      ∃ x ∈ F.surrenders, x.session.key = ("opencode", "a") ∧ x.at' = 612 ∧
        x.session.lastRequestAt + x.cfg.sessionExpiry = 700 ∧ ¬ x.DueAt x.at' := by
  have hview : (exec step oneEndpoint answeredDuringPass).map
      (fun F => F.surrenders.map (fun x => (x.session.key, x.at',
        x.session.lastRequestAt + x.cfg.sessionExpiry, decide (x.DueAt x.at')))) =
        some [(("opencode", "a"), 612, 700, false)] := by decide +kernel
  obtain ⟨F, hexec, hF⟩ := Option.map_eq_some_iff.mp hview
  obtain ⟨x, hx, hmap⟩ := List.mem_map.mp (hF ▸ List.mem_singleton.mpr rfl :
    (("opencode", "a"), (612 : Time), (700 : Time), false) ∈ F.surrenders.map _)
  obtain ⟨hkey, hmap⟩ := Prod.mk.inj hmap
  obtain ⟨hat, hmap⟩ := Prod.mk.inj hmap
  obtain ⟨hlast, hdue⟩ := Prod.mk.inj hmap
  exact ⟨F, hexec, x, hx, hkey, hat, hlast, of_decide_eq_false hdue⟩

end Fleet

end Relay
