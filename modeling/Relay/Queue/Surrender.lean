import Mathlib.Data.List.ReduceOption
import Relay.Queue.Fifo

/-!
# Relay.Queue.Surrender

**When `tick` surrenders a spot.** `SurrenderRule` states the rule in terms of the last
client report, the last request and the start of the current idle stretch; `surrender_iff`
shows that `tick` follows it in every reachable state.

The start of a stretch is a fact about the past: the first tick that saw the session idle
or waiting, with no promotion, no new request and no tick that saw it busy since. It is
read off the sightings of the session (`stretchStart`). The queue remembers it in
`idle_since`, a field that several operations write, and the two agree for every session
that holds a spot (`Clocked.since`).
-/

namespace Relay

open Runs

/-! ### What happens to a session -/

/-- What the idle countdown of a session depends on. -/
inductive Sighting
  | requested (s : SessionRef)
  | promoted (s : SessionRef)
  /-- A `tick` visited the session and computed its status. -/
  | seen (s : SessionRef) (status : Status) (now : Time)
  deriving DecidableEq, Repr

namespace Sighting

def session : Sighting → SessionRef
  | .requested s | .promoted s | .seen s _ _ => s

/-- The clock reading of a tick that saw the session idle or waiting. Every other sighting
ends a stretch. -/
def restsAt? : Sighting → Option Time
  | .seen _ .idle now | .seen _ .waiting now => some now
  | _ => none

end Sighting

/-- The ticks of the current uninterrupted stretch in which a session was idle or waiting,
latest first. -/
def stretch (log : List Sighting) (s : SessionRef) : List Time :=
  (((log.filter (fun x => decide (x.session = s))).reverse.map Sighting.restsAt?).takeWhile
    Option.isSome).reduceOption

/-- The first tick of the current stretch. -/
def stretchStart (log : List Sighting) (s : SessionRef) : Option Time := (stretch log s).getLast?

section Stretch

variable {log : List Sighting} {x : Sighting} {s : SessionRef}

@[simp] theorem stretchStart_nil (s : SessionRef) : stretchStart [] s = none := rfl

theorem stretchStart_snoc_of_ne (h : x.session ≠ s) :
    stretchStart (log ++ [x]) s = stretchStart log s := by
  simp [stretchStart, stretch, List.filter_append, h]

theorem stretchStart_snoc_ended (h : x.session = s) (hends : x.restsAt? = none) :
    stretchStart (log ++ [x]) s = none := by
  simp [stretchStart, stretch, List.filter_append, h, hends, List.reduceOption_nil]

theorem stretchStart_snoc_rests {now : Time} (h : x.session = s) (hrests : x.restsAt? = some now) :
    stretchStart (log ++ [x]) s = some ((stretchStart log s).getD now) := by
  simp [stretchStart, stretch, List.filter_append, h, hrests, List.reduceOption_cons_of_some,
    List.getLast?_cons]

/-- A tick goes on with a stretch when it sees the session idle or waiting, and ends it
otherwise. -/
theorem stretchStart_snoc_seen (log : List Sighting) (s : SessionRef) (status : Status)
    (now : Time) : stretchStart (log ++ [.seen s status now]) s =
      if status = .idle ∨ status = .waiting then some ((stretchStart log s).getD now)
      else none := by
  cases status with
  | idle | waiting => exact stretchStart_snoc_rests rfl rfl
  | busy | retry => exact stretchStart_snoc_ended rfl rfl

end Stretch

/-! ### The rule -/

namespace Session

/-- The client's last report says `status`, and it is fresher than the grace. -/
def FreshlyReports (now : Time) (status : Status) (x : Session) : Prop :=
  x.clientStatus = some status ∧ now - x.clientStatusAt < statusUnreachableGrace

/-- When the spot of a session with nothing in flight is surrendered; `start` is the first
tick of its current idle stretch, which may be this one. -/
def SurrenderRule (cfg : QueueConfig) (now : Time) (start : Option Time) (x : Session) : Prop :=
  if x.client = "unknown" then x.lastRequestAt + max cfg.busyWindow cfg.sessionExpiry ≤ now
  else
    x.FreshlyReports now .waiting ∨
    (x.FreshlyReports now .idle ∧ cfg.immediateIdleRelease = true ∧
      x.lastRequestAt < x.clientStatusAt) ∨
    ((x.FreshlyReports now .idle ∨ ∀ status, ¬ x.FreshlyReports now status) ∧
      start.getD now + cfg.sessionExpiry ≤ now)

/-- A fresh report that says `busy` or `retry` keeps the spot. -/
theorem not_surrenderRule_of_active {cfg : QueueConfig} {now : Time} {start : Option Time}
    {x : Session} (hknown : x.client ≠ "unknown")
    (hactive : x.FreshlyReports now .busy ∨ x.FreshlyReports now .retry) :
    ¬ x.SurrenderRule cfg now start := by
  unfold SurrenderRule FreshlyReports
  unfold FreshlyReports at hactive
  rcases hactive with ⟨hstatus, hfresh⟩ | ⟨hstatus, hfresh⟩ <;> simp [hknown, hstatus, hfresh]

variable {cfg : QueueConfig} {now : Time} {x : Session}

/-- The deadline of the recomputed session has come exactly when the rule applies, with
the stretch that `idle_since` remembers. -/
theorem due_recompute_iff (hinflight : 0 ≤ x.inflight)
    (hreported : x.clientStatus ≠ none → 0 < x.clientStatusAt)
    (hsince : ∀ t, x.idleSince = some t → t ≤ now) :
    (x.recompute cfg now).due cfg now = true ↔
      x.inflight = 0 ∧ x.SurrenderRule cfg now x.idleSince := by
  by_cases hrun : 0 < x.inflight
  · rw [due_eq_false_of_inflight (x := x.recompute cfg now) hrun]
    exact iff_of_false Bool.false_ne_true fun h => Int.ne_of_gt hrun h.1
  have hidle : x.inflight = 0 := by omega
  have hstart : x.idleSince.getD now ≤ now := by
    cases hx : x.idleSince with
    | none => exact le_refl now
    | some t => exact hsince t hx
  by_cases hknown : x.client = "unknown"
  · simp [due, releaseDeadline, recompute, SurrenderRule, hidle, hknown]
  by_cases hfresh : now - x.clientStatusAt < statusUnreachableGrace
  · cases hstatus : x.clientStatus with
    | none =>
        simp [due, releaseDeadline, recompute, currentStatus, SurrenderRule, FreshlyReports,
          hidle, hknown, hstatus]
    | some status =>
        have hpos := hreported (by simp [hstatus])
        cases status with
        | idle =>
            by_cases himmediate :
                cfg.immediateIdleRelease = true ∧ x.lastRequestAt < x.clientStatusAt
            · simp [due, releaseDeadline, recompute, currentStatus, SurrenderRule, FreshlyReports,
                freshClientReport, hidle, hknown, hstatus, hfresh, hpos, hstart, himmediate]
            · simp [due, releaseDeadline, recompute, currentStatus, SurrenderRule, FreshlyReports,
                freshClientReport, hidle, hknown, hstatus, hfresh, hpos, himmediate]
        | _ =>
            simp [due, releaseDeadline, recompute, currentStatus, SurrenderRule, FreshlyReports,
              freshClientReport, hidle, hknown, hstatus, hfresh, hpos, hstart]
  · -- without a fresh report the session counts as idle
    cases hstatus : x.clientStatus <;>
      simp [due, releaseDeadline, recompute, currentStatus, SurrenderRule, FreshlyReports,
        freshClientReport, hidle, hknown, hstatus, hfresh]

end Session

/-! ### Operations and their sightings -/

/-- The atomic operations of a queue. Besides those of `QueueOp`, an admission that awaits
the store between its steps calls `get_or_create_session` and `enqueue` one by one. -/
inductive AtomicOp
  | queue (op : QueueOp)
  | getOrCreateSession (r : Requester) (now : Time)
  | enqueue (s : SessionRef) (path : String) (queuedAt promoteAt : Time)

/-- A report carries a positive stamp: the monotonic clock never reads zero. -/
def AtomicOp.Stamped : AtomicOp → Prop
  | .queue (.setClientStatus _ _ _ at') => 0 < at'
  | _ => True

namespace EndpointQueue

variable {q q' : EndpointQueue} {log : List Sighting} {e : EntryRef} {s : SessionRef}
  {now : Time}

/-- The sightings of a list of promotions. -/
def promotedSightings (promotions : List (EndpointQueue × EntryRef)) : List Sighting :=
  promotions.map (fun p => .promoted (p.1.sessionOf p.2))

/-- The sightings of a visit of `tick`: the status it computes, then the promotions that
follow a surrender. -/
def visitSightings (now : Time) (promoteAt : Key → Time) (v : EndpointQueue × Key × SessionRef) :
    List Sighting :=
  .seen v.2.2 ((v.1.objs v.2.2).currentStatus v.1.cfg now).1 now ::
    promotedSightings (visitPromotions now promoteAt v)

/-- What an operation does to sessions, in order. -/
def sightingsOf (q : EndpointQueue) : AtomicOp → List Sighting
  | .queue (.admitQueued r path sessionAt queuedAt promoteAt) =>
      .requested (q.getOrCreateSession r sessionAt).1 ::
        promotedSightings (q.promotionsOf (.admitQueued r path sessionAt queuedAt promoteAt))
  | .queue (.tick now promoteAt) =>
      (q.visits now promoteAt).flatMap (visitSightings now promoteAt)
  | .queue op => promotedSightings (q.promotionsOf op)
  | .getOrCreateSession r now => [.requested (q.getOrCreateSession r now).1]
  | .enqueue s path queuedAt promoteAt =>
      let made := q.newEntry s path queuedAt
      promotedSightings ((made.2.append made.1).promotions promoteAt)

/-- One atomic operation. -/
def atomicStep (q : EndpointQueue) : AtomicOp → Option EndpointQueue
  | .queue op => q.step op
  | .getOrCreateSession r now => some (q.getOrCreateSession r now).2
  | .enqueue s path queuedAt promoteAt =>
      if s < q.objs.next then
        let made := q.newEntry s path queuedAt
        some (made.2.enqueue made.1 promoteAt)
      else none

/-! ### What `idle_since` remembers -/

/-- `idle_since` of a session that holds a spot is the start of its current stretch. -/
structure Clocked (log : List Sighting) (q : EndpointQueue) : Prop where
  filed : Filed q
  inflight_nonneg : ∀ s, 0 ≤ (q.objs s).inflight
  reported : ∀ s, (q.objs s).clientStatus ≠ none → 0 < (q.objs s).clientStatusAt
  since : ∀ s, (q.objs s).spotHeld = true → (q.objs s).idleSince = stretchStart log s

namespace Clocked

theorem init (cfg : QueueConfig) : Clocked [] (EndpointQueue.init cfg) where
  filed := .init cfg
  inflight_nonneg := fun _ => le_refl 0
  reported := fun _ h => absurd rfl h
  since := fun _ _ => rfl

/-- An update of one session object, which the history may mention. -/
theorem modify (h : Clocked log q) {log' : List Sighting} {f : Session → Session}
    (hfiled : Filed q') (hobjs : q'.objs = q.objs.modify s f)
    (hinflight : ∀ x, 0 ≤ x.inflight → 0 ≤ (f x).inflight)
    (hreported : ∀ x, (x.clientStatus ≠ none → 0 < x.clientStatusAt) →
      (f x).clientStatus ≠ none → 0 < (f x).clientStatusAt)
    (hlog : ∀ s', s' ≠ s → stretchStart log' s' = stretchStart log s')
    (hsince : ∀ x, (x.spotHeld = true → x.idleSince = stretchStart log s) →
      (f x).spotHeld = true → (f x).idleSince = stretchStart log' s) : Clocked log' q' := by
  have hself : q'.objs s = f (q.objs s) := by rw [hobjs, Heap.modify_self]
  have hother : ∀ s', s' ≠ s → q'.objs s' = q.objs s' := fun s' hne => by
    rw [hobjs, Heap.modify_of_ne _ _ hne]
  constructor
  · exact hfiled
  · intro s'
    by_cases hss : s' = s
    · rw [hss, hself]
      exact hinflight _ (h.inflight_nonneg s)
    · rw [hother s' hss]
      exact h.inflight_nonneg s'
  · intro s'
    by_cases hss : s' = s
    · rw [hss, hself]
      exact hreported _ (h.reported s)
    · rw [hother s' hss]
      exact h.reported s'
  · intro s'
    by_cases hss : s' = s
    · rw [hss, hself]
      exact hsince _ (h.since s)
    · rw [hother s' hss, hlog s' hss]
      exact h.since s'

/-- An update that leaves the spot, the countdown and the report of a session alone. -/
theorem quiet (h : Clocked log q) {f : Session → Session} (hfiled : Filed q')
    (hobjs : q'.objs = q.objs.modify s f)
    (hinflight : ∀ x, 0 ≤ x.inflight → 0 ≤ (f x).inflight)
    (hheld : ∀ x, (f x).spotHeld = x.spotHeld) (hidle : ∀ x, (f x).idleSince = x.idleSince)
    (hstatus : ∀ x, (f x).clientStatus = x.clientStatus)
    (hstamp : ∀ x, (f x).clientStatusAt = x.clientStatusAt) : Clocked log q' := by
  refine h.modify hfiled hobjs hinflight ?_ (fun _ _ => rfl) ?_
  · intro x hx
    rw [hstatus, hstamp]
    exact hx
  · intro x hx
    rw [hheld, hidle]
    exact hx

/-- A change of the queue that leaves all session objects alone. -/
theorem congr (h : Clocked log q) (hfiled : Filed q') (hobjs : q'.objs = q.objs) :
    Clocked log q' where
  filed := hfiled
  inflight_nonneg := by
    rw [hobjs]
    exact h.inflight_nonneg
  reported := by
    rw [hobjs]
    exact h.reported
  since := by
    rw [hobjs]
    exact h.since

theorem promote (h : Clocked log q) (now : Time) (e : EntryRef) :
    Clocked (log ++ [.promoted (q.sessionOf e)]) (q.promote now e) := by
  refine h.modify (h.filed.promote now e) (promote_objs q now e) ?_ (fun _ hx => hx) ?_ ?_
  · intro x hx
    show 0 ≤ x.inflight + 1
    omega
  · intro s' hne
    exact stretchStart_snoc_of_ne (Ne.symm hne)
  · intro x _ _
    exact (stretchStart_snoc_ended rfl rfl).symm

theorem tryPromote (h : Clocked log q) (now : Time) :
    Clocked (log ++ promotedSightings (q.promotions now)) (q.tryPromote now) := by
  unfold EndpointQueue.tryPromote promotions promotedSightings
  split
  · refine Drain.drain_history (f := fun q e => Sighting.promoted (q.sessionOf e)) ?_ _ log q h
    intro log q e q' h hnext
    obtain ⟨-, rfl⟩ := promoteNext_eq_some hnext
    exact h.promote now e
  · simpa using h

theorem getOrCreateSession (h : Clocked log q) (r : Requester) (now : Time) :
    Clocked (log ++ [.requested (q.getOrCreateSession r now).1])
      (q.getOrCreateSession r now).2 := by
  have hfiled := (h.filed.getOrCreateSession r now).1
  revert hfiled
  unfold EndpointQueue.getOrCreateSession
  split
  · intro hfiled
    -- the new object holds no spot; the others have not changed
    have hother : ∀ s, s ≠ q.objs.next → q.objs.alloc (Session.new r now) s = q.objs s :=
      fun s hne => Heap.alloc_of_ne _ _ hne
    constructor
    · exact hfiled
    · intro s
      by_cases hs : s = q.objs.next
      · rw [hs]
        show 0 ≤ (q.objs.alloc (Session.new r now) q.objs.next).inflight
        rw [Heap.alloc_self]
        exact le_refl 0
      · show 0 ≤ (q.objs.alloc (Session.new r now) s).inflight
        rw [hother s hs]
        exact h.inflight_nonneg s
    · intro s
      by_cases hs : s = q.objs.next
      · rw [hs]
        show (q.objs.alloc (Session.new r now) q.objs.next).clientStatus ≠ none → _
        rw [Heap.alloc_self]
        intro hstatus
        exact absurd rfl hstatus
      · show (q.objs.alloc (Session.new r now) s).clientStatus ≠ none →
          0 < (q.objs.alloc (Session.new r now) s).clientStatusAt
        rw [hother s hs]
        exact h.reported s
    · intro s
      by_cases hs : s = q.objs.next
      · rw [hs]
        show (q.objs.alloc (Session.new r now) q.objs.next).spotHeld = true → _
        rw [Heap.alloc_self]
        intro hheld
        exact absurd hheld Bool.false_ne_true
      · show (q.objs.alloc (Session.new r now) s).spotHeld = true →
          (q.objs.alloc (Session.new r now) s).idleSince = _
        rw [hother s hs, stretchStart_snoc_of_ne (Ne.symm hs)]
        exact h.since s
  · rename_i s _
    intro hfiled
    refine h.modify (s := s) (f := Session.revive r now) hfiled rfl (fun _ hx => hx)
      (fun _ hx => hx) ?_ ?_
    · intro s' hne
      exact stretchStart_snoc_of_ne (Ne.symm hne)
    · intro x _ _
      exact (stretchStart_snoc_ended rfl rfl).symm

theorem enqueue (h : Clocked log q) (e : EntryRef) (now : Time) :
    Clocked (log ++ promotedSightings ((q.append e).promotions now)) (q.enqueue e now) := by
  refine tryPromote ?_ now
  exact h.quiet (h.filed.modify (f := Session.queued (q.entries e).path) (fun _ => rfl) rfl
    (append_objs q e)) (append_objs q e) (fun _ hx => hx) (fun _ => rfl) (fun _ => rfl)
    (fun _ => rfl) fun _ => rfl

theorem newEntry (h : Clocked log q) (s : SessionRef) (path : String) (now : Time) :
    Clocked log (q.newEntry s path now).2 :=
  h.congr (h.filed.congr rfl rfl) rfl

theorem abandon (h : Clocked log q) (e : EntryRef) : Clocked log (q.abandon e) := by
  cases hdone : (q.entries e).done with
  | true =>
      rw [EndpointQueue.abandon, if_pos hdone]
      exact h
  | false =>
      exact h.quiet (h.filed.abandon e) (abandon_objs hdone) (fun _ hx => hx) (fun _ => rfl)
        (fun _ => rfl) (fun _ => rfl) fun _ => rfl

theorem release (h : Clocked log q) (e : EntryRef) (now promoteAt : Time) :
    Clocked (log ++ promotedSightings ((q.finish e now).promotions promoteAt))
      (q.release e now promoteAt) := by
  refine tryPromote ?_ promoteAt
  refine h.quiet (h.filed.modify (f := Session.finished now) (fun _ => rfl) rfl
    (finish_objs q e now)) (finish_objs q e now) ?_ (fun _ => rfl) (fun _ => rfl) (fun _ => rfl)
    fun _ => rfl
  intro x hx
  show 0 ≤ if 0 < x.inflight then x.inflight - 1 else x.inflight
  split <;> omega

theorem freeSpot (h : Clocked log q) (s : SessionRef) (key : Key) :
    Clocked log (q.freeSpot s key) := by
  refine h.modify (h.filed.freeSpot s key) (freeSpot_objs q s key) (fun _ hx => hx)
    (fun _ hx => hx) (fun _ _ => rfl) ?_
  intro x _ hheld
  exact absurd hheld Bool.false_ne_true

theorem releaseSpot (h : Clocked log q) (s : SessionRef) (key : Key) (now : Time) :
    Clocked (log ++ promotedSightings ((q.freeSpot s key).promotions now))
      (q.releaseSpot s key now) :=
  (h.freeSpot s key).tryPromote now

/-- The sighting of a session whose status was recomputed. -/
theorem recomputeAt (h : Clocked log q) (s : SessionRef) (now : Time) :
    Clocked (log ++ [.seen s ((q.objs s).currentStatus q.cfg now).1 now])
      (q.recomputeAt s now) := by
  have hself : (q.recomputeAt s now).objs s = (q.objs s).recompute q.cfg now :=
    Heap.modify_self _ _ _
  have hother : ∀ s', s' ≠ s → (q.recomputeAt s now).objs s' = q.objs s' := fun s' hne =>
    Heap.modify_of_ne _ _ hne
  constructor
  · exact h.filed.modify (f := Session.recompute q.cfg now) (fun _ => rfl) rfl rfl
  · intro s'
    rw [EndpointQueue.recomputeAt,
      Heap.modify_proj Session.inflight _ _ (Session.recompute q.cfg now) fun _ => rfl]
    exact h.inflight_nonneg s'
  · intro s'
    rw [EndpointQueue.recomputeAt,
      Heap.modify_proj Session.clientStatus _ _ (Session.recompute q.cfg now) fun _ => rfl,
      Heap.modify_proj Session.clientStatusAt _ _ (Session.recompute q.cfg now) fun _ => rfl]
    exact h.reported s'
  · intro s' hheld
    by_cases hss : s' = s
    · subst hss
      rw [hself] at hheld ⊢
      have hsince := h.since s' hheld
      show (if _ ∨ _ then (q.objs s').idleSince.or (some now) else none) = _
      rw [stretchStart_snoc_seen, ← hsince]
      split
      · cases (q.objs s').idleSince <;> rfl
      · rfl
    · rw [hother s' hss] at hheld ⊢
      rw [stretchStart_snoc_of_ne (Ne.symm hss)]
      exact h.since s' hheld

theorem visit (h : Clocked log q) (now : Time) (promoteAt : Key → Time) (key : Key)
    (s : SessionRef) :
    Clocked (log ++ visitSightings now promoteAt (q, key, s))
      (q.visit now (promoteAt key) key s).1 := by
  have hrec := h.recomputeAt s now
  unfold visitSightings visitPromotions
  rw [List.append_cons]
  rcases visit_cases q now (promoteAt key) key s with
    ⟨hsur, heq⟩ | ⟨hsur, -, -, -, heq⟩ | ⟨hsur, -, heq⟩
  · rw [heq, if_pos hsur]
    exact hrec.releaseSpot s key (promoteAt key)
  · rw [heq, if_neg (by simp [hsur]), promotedSightings, List.map_nil, List.append_nil]
    exact hrec.congr (hrec.filed.forget key) rfl
  · rw [heq, if_neg (by simp [hsur]), promotedSightings, List.map_nil, List.append_nil]
    exact hrec

theorem tickLoop (promoteAt : Key → Time) (rest : List (Key × SessionRef)) (h : Clocked log q) :
    Clocked (log ++ (visitsOf now promoteAt q rest).flatMap (visitSightings now promoteAt))
      (tickLoop now promoteAt q rest).1 := by
  induction rest generalizing q log with
  | nil => simpa [visitsOf, EndpointQueue.tickLoop] using h
  | cons p rest ih =>
      obtain ⟨key, s⟩ := p
      have hnext := ih (h.visit now promoteAt key s)
      simpa [visitsOf, EndpointQueue.tickLoop] using hnext

theorem releaseSession (h : Clocked log q) (client sessionId : String) (now : Time) :
    Clocked (log ++ promotedSightings (q.promotionsOf (.releaseSession client sessionId now)))
      (q.releaseSession client sessionId now).2 := by
  rcases releaseSession_cases q client sessionId now with ⟨s, hs, hheld, heq⟩ | ⟨hno, heq⟩
  · rw [heq, promotionsOf_releaseSession_of_held hs hheld]
    exact h.releaseSpot s _ now
  · rw [heq, promotionsOf_releaseSession_of_not_held hno]
    simpa [promotedSightings] using h

/-- Every operation keeps `idle_since` in step with the history. -/
theorem step (h : Clocked log q) {op : AtomicOp} (hstamped : op.Stamped)
    (hop : q.atomicStep op = some q') : Clocked (log ++ q.sightingsOf op) q' := by
  cases op with
  | getOrCreateSession r now =>
      obtain rfl := Option.some.inj hop
      exact h.getOrCreateSession r now
  | enqueue s path queuedAt promoteAt =>
      obtain ⟨-, hq'⟩ := Option.ite_none_right_eq_some.mp hop
      obtain rfl := Option.some.inj hq'
      exact (h.newEntry s path queuedAt).enqueue _ promoteAt
  | queue op =>
      cases op with
      | admitQueued r path sessionAt queuedAt promoteAt =>
          obtain rfl := Option.some.inj hop
          have hcreated := h.getOrCreateSession r sessionAt
          have hmade := hcreated.newEntry (q.getOrCreateSession r sessionAt).1 path queuedAt
          have hqueued := hmade.enqueue (q.prepare r path sessionAt queuedAt).1 promoteAt
          rw [List.append_assoc] at hqueued
          exact hqueued
      | abandon e =>
          obtain ⟨-, hq'⟩ := Option.ite_none_right_eq_some.mp hop
          obtain rfl := Option.some.inj hq'
          simpa [sightingsOf, promotionsOf, promotedSightings] using h.abandon e
      | release e now promoteAt =>
          obtain ⟨-, hq'⟩ := Option.ite_none_right_eq_some.mp hop
          obtain rfl := Option.some.inj hq'
          exact h.release e now promoteAt
      | releaseSession client sessionId promoteAt =>
          obtain rfl := Option.some.inj hop
          exact h.releaseSession client sessionId promoteAt
      | tick now promoteAt =>
          obtain rfl := Option.some.inj hop
          exact h.tickLoop promoteAt q.sessions.entries
      | setReady ready =>
          obtain rfl := Option.some.inj hop
          have hset : Clocked log { q with ready := ready } :=
            h.congr (h.filed.congr rfl rfl) rfl
          simpa [sightingsOf, promotionsOf, promotedSightings] using hset
      | tryPromote now =>
          obtain rfl := Option.some.inj hop
          exact h.tryPromote now
      | setClientStatus s status detail at' =>
          obtain ⟨-, hq'⟩ := Option.ite_none_right_eq_some.mp hop
          obtain rfl := Option.some.inj hq'
          have hset : Clocked log (q.setClientStatus s status detail at') :=
            h.modify (f := Session.reported status detail at')
              (h.filed.modify (f := Session.reported status detail at') (fun _ => rfl) rfl rfl)
              rfl (fun _ hx => hx) (fun _ _ _ => hstamped) (fun _ _ => rfl) fun _ hx => hx
          simpa [sightingsOf, promotionsOf, promotedSightings] using hset
      | setSharedSpotKey s key =>
          obtain ⟨-, hq'⟩ := Option.ite_none_right_eq_some.mp hop
          obtain rfl := Option.some.inj hq'
          have hset : Clocked log (q.setSharedSpotKey s key) :=
            h.quiet (f := Session.sharing key)
              (h.filed.modify (f := Session.sharing key) (fun _ => rfl) rfl rfl) rfl
              (fun _ hx => hx) (fun _ => rfl) (fun _ => rfl) (fun _ => rfl) fun _ => rfl
          simpa [sightingsOf, promotionsOf, promotedSightings] using hset

end Clocked

/-! ### What a tick finds when it visits a session -/

theorem visitsOf_map_snd (now : Time) (promoteAt : Key → Time) (rest : List (Key × SessionRef))
    (q : EndpointQueue) : (visitsOf now promoteAt q rest).map Prod.snd = rest := by
  induction rest generalizing q with
  | nil => rfl
  | cons p rest ih =>
      obtain ⟨key, s⟩ := p
      exact congrArg ((key, s) :: ·) (ih _)

/-- A visit is of a session of the table. -/
theorem get?_of_mem_visits {promoteAt : Key → Time} {v : EndpointQueue × Key × SessionRef}
    (hv : v ∈ q.visits now promoteAt) : q.sessions.get? v.2.1 = some v.2.2 := by
  refine OrdDict.get?_eq_some_iff.mpr ?_
  rw [← visitsOf_map_snd now promoteAt q.sessions.entries q]
  exact List.mem_map_of_mem hv

/-- `tick` reports the spots it surrenders. -/
theorem mem_released_iff {promoteAt : Key → Time} {key : Key} :
    key ∈ (q.tick now promoteAt).2.map Prod.fst ↔
      ∃ v ∈ q.visits now promoteAt, v.2.1 = key ∧ v.1.surrenders v.2.2 now = true := by
  unfold tick visits
  generalize q.sessions.entries = rest
  induction rest generalizing q with
  | nil => simp [tickLoop, visitsOf]
  | cons p rest ih =>
      obtain ⟨key', s⟩ := p
      have hhead : key ∈ (q.visit now (promoteAt key') key' s).2.toList.map Prod.fst ↔
          key' = key ∧ q.surrenders s now = true := by
        unfold visit surrenders
        simp only [recomputeAt, Heap.modify_self]
        split
        · rename_i hheld
          split
          · rename_i hdue
            simp [hheld, hdue, eq_comm]
          · rename_i hdue
            simp [hdue]
        · rename_i hheld
          split <;> simp [hheld]
      simp only [tickLoop, visitsOf, List.map_append, List.mem_append, ih, hhead, List.mem_cons,
        exists_eq_or_imp]

/-- Another session is touched by a visit through the promotion of its requests only. -/
theorem visit_objs_of_ne (h : Clocked log q) (now promoteAt : Time) (key : Key) {s s' : SessionRef}
    (hne : s' ≠ s) : (q.visit now promoteAt key s).1.cfg = q.cfg ∧
      ((q.visit now promoteAt key s).1.objs s' = q.objs s' ∨
        0 < ((q.visit now promoteAt key s).1.objs s').inflight) := by
  have hrec : (q.recomputeAt s now).objs s' = q.objs s' := Heap.modify_of_ne _ _ hne
  rcases visit_cases q now promoteAt key s with ⟨-, heq⟩ | ⟨-, -, -, -, heq⟩ | ⟨-, -, heq⟩
  · rw [heq]
    have hfree : ((q.recomputeAt s now).freeSpot s key).objs s' = q.objs s' := by
      rw [freeSpot_objs, Heap.modify_of_ne _ _ hne, hrec]
    refine (tryPromote_induction (I := fun q' => (∃ log, Clocked log q') ∧ q'.cfg = q.cfg ∧
      (q'.objs s' = q.objs s' ∨ 0 < (q'.objs s').inflight)) ?_
      ⟨⟨_, (h.recomputeAt s now).freeSpot s key⟩, rfl, Or.inl hfree⟩).2
    rintro q' e ⟨⟨log', h'⟩, hcfg, hobj⟩ -
    refine ⟨⟨_, h'.promote promoteAt e⟩, (promote_cfg q' promoteAt e).trans hcfg, ?_⟩
    rw [promote_objs]
    by_cases hse : s' = q'.sessionOf e
    · -- the promoted entry is one of `s'`
      right
      rw [hse, Heap.modify_self]
      have hnonneg := h'.inflight_nonneg (q'.sessionOf e)
      show 0 < (q'.objs (q'.sessionOf e)).inflight + 1
      omega
    · rw [Heap.modify_of_ne _ _ hse]
      exact hobj
  · rw [heq]
    exact ⟨rfl, Or.inl hrec⟩
  · rw [heq]
    exact ⟨rfl, Or.inl hrec⟩

/-- A visit finds the session as it was before the tick, unless a request of the session
has been promoted since. -/
theorem visitsOf_found (now : Time) (promoteAt : Key → Time) (rest : List (Key × SessionRef))
    (hnd : (rest.map Prod.fst).Nodup) (h : Clocked log q)
    (hreg : ∀ p ∈ rest, q.sessions.get? p.1 = some p.2) :
    ∀ v ∈ visitsOf now promoteAt q rest, v.1.cfg = q.cfg ∧
      (v.1.objs v.2.2 = q.objs v.2.2 ∨ 0 < (v.1.objs v.2.2).inflight) := by
  induction rest generalizing q log with
  | nil => exact fun _ hv => absurd hv List.not_mem_nil
  | cons p rest ih =>
      obtain ⟨key, s⟩ := p
      obtain ⟨hkey, hnd⟩ : key ∉ rest.map Prod.fst ∧ (rest.map Prod.fst).Nodup :=
        List.nodup_cons.mp hnd
      have hnext := h.visit now promoteAt key s
      have hother : ∀ p ∈ rest, p.1 ≠ key := by
        rintro p hp rfl
        exact hkey (List.mem_map_of_mem hp)
      have hreg' : ∀ p ∈ rest,
          (q.visit now (promoteAt key) key s).1.sessions.get? p.1 = some p.2 := by
        intro p hp
        rw [visit_sessions_of_ne _ _ _ _ (hother p hp)]
        exact hreg p (List.mem_cons_of_mem _ hp)
      intro v hv
      rcases List.mem_cons.mp hv with rfl | hv
      · exact ⟨rfl, Or.inl rfl⟩
      · obtain ⟨hcfg, hobj⟩ := ih hnd hnext hreg' v hv
        -- the sessions still to be visited are stored under other keys
        have hrest : v.2 ∈ rest := by
          rw [← visitsOf_map_snd now promoteAt rest (q.visit now (promoteAt key) key s).1]
          exact List.mem_map_of_mem hv
        have hne : v.2.2 ≠ s := by
          intro heq
          have hv₁ := (h.filed _ _ (hreg v.2 (List.mem_cons_of_mem _ hrest))).2
          rw [heq, (h.filed _ _ (hreg (key, s) List.mem_cons_self)).2] at hv₁
          exact hother v.2 hrest hv₁.symm
        obtain ⟨hcfg', hobj'⟩ := visit_objs_of_ne h now (promoteAt key) key hne
        refine ⟨hcfg.trans hcfg', ?_⟩
        rcases hobj with hobj | hobj
        · rw [hobj]
          exact hobj'
        · exact Or.inr hobj

/-! ### The rule -/

/-- The timestamps of a queue: those of its sessions, spots and waiting entries. -/
def timestamps (q : EndpointQueue) : List Time :=
  q.sessions.values.flatMap (fun s =>
    let x := q.objs s
    [x.createdAt, x.lastRequestAt, x.spotAcquiredAt, x.clientStatusAt] ++ x.idleSince.toList) ++
  q.spots.values ++ q.queue.map (fun e => (q.entries e).enqueuedAt)

theorem idleSince_mem_timestamps {key : Key} {t : Time} (hs : q.sessions.get? key = some s)
    (ht : (q.objs s).idleSince = some t) : t ∈ q.timestamps := by
  refine List.mem_append_left _ (List.mem_append_left _ (List.mem_flatMap.mpr ⟨s, ?_, ?_⟩))
  · exact OrdDict.mem_values_iff.mpr ⟨key, hs⟩
  · simp [ht]

/-- A tick surrenders the spot of a session exactly when nothing of the session is in
flight as it is visited, and the rule applies. -/
theorem Clocked.mem_released_iff (h : Clocked log q) {key : Key}
    (hs : q.sessions.get? key = some s) (hnow : ∀ t ∈ q.timestamps, t ≤ now)
    (promoteAt : Key → Time) :
    key ∈ (q.tick now promoteAt).2.map Prod.fst ↔
      (q.objs s).spotHeld = true ∧
      (∃ q', (q', key, s) ∈ q.visits now promoteAt ∧ (q'.objs s).inflight = 0) ∧
      (q.objs s).SurrenderRule q.cfg now (stretchStart log s) := by
  have hfound := visitsOf_found now promoteAt q.sessions.entries q.sessions.nodup h
    fun _ hp => OrdDict.get?_eq_some_iff.mpr hp
  have hvisit : ∀ q', (q', key, s) ∈ q.visits now promoteAt →
      (q'.surrenders s now = true ↔ (q.objs s).spotHeld = true ∧ (q'.objs s).inflight = 0 ∧
        (q.objs s).SurrenderRule q.cfg now (stretchStart log s)) := by
    intro q' hv
    obtain ⟨hcfg, hobj⟩ := hfound _ hv
    rw [surrenders, hcfg, Bool.and_eq_true]
    rcases hobj with hobj | hrun
    · rw [hobj, Session.due_recompute_iff (h.inflight_nonneg s) (h.reported s) fun t ht =>
        hnow t (idleSince_mem_timestamps hs ht)]
      refine and_congr_right fun hheld => ?_
      rw [h.since s hheld]
    · -- a request of the session was promoted by an earlier surrender of this tick
      have hdue : ((q'.objs s).recompute q.cfg now).due q.cfg now = false :=
        Session.due_eq_false_of_inflight hrun
      rw [hdue]
      exact iff_of_false (fun h => Bool.false_ne_true h.2) fun h => Int.ne_of_gt hrun h.2.1
  rw [EndpointQueue.mem_released_iff]
  constructor
  · rintro ⟨⟨q', key', s'⟩, hv, rfl, hsur⟩
    obtain rfl : s' = s := Option.some.inj ((get?_of_mem_visits hv).symm.trans hs)
    obtain ⟨hheld, hidle, hrule⟩ := (hvisit q' hv).mp hsur
    exact ⟨hheld, ⟨q', hv, hidle⟩, hrule⟩
  · rintro ⟨hheld, ⟨q', hv, hidle⟩, hrule⟩
    exact ⟨(q', key, s), hv, rfl, (hvisit q' hv).mpr ⟨hheld, hidle, hrule⟩⟩

/-- A queue with the history of its sessions. -/
structure Watched where
  queue : EndpointQueue
  sightings : List Sighting

namespace Watched

/-- A new queue. -/
def init (cfg : QueueConfig) : Watched := ⟨.init cfg, []⟩

/-- One operation, recorded. -/
def step (w : Watched) (op : AtomicOp) : Option Watched :=
  (w.queue.atomicStep op).map (fun q => ⟨q, w.sightings ++ w.queue.sightingsOf op⟩)

end Watched

theorem atomicStep_cfg {op : AtomicOp} (hop : q.atomicStep op = some q') : q'.cfg = q.cfg := by
  cases op with
  | getOrCreateSession r now =>
      obtain rfl := Option.some.inj hop
      exact getOrCreateSession_cfg q r now
  | enqueue s path queuedAt promoteAt =>
      obtain ⟨-, hq'⟩ := Option.ite_none_right_eq_some.mp hop
      obtain rfl := Option.some.inj hq'
      exact tryPromote_cfg _ promoteAt
  | queue op =>
      change q.step op = some q' at hop
      cases op with
      | admitQueued r path sessionAt queuedAt promoteAt =>
          obtain rfl := Option.some.inj hop
          exact (tryPromote_cfg _ promoteAt).trans (getOrCreateSession_cfg q r sessionAt)
      | abandon e =>
          obtain ⟨-, hq'⟩ := Option.ite_none_right_eq_some.mp hop
          obtain rfl := Option.some.inj hq'
          unfold abandon
          split <;> rfl
      | release e now promoteAt =>
          obtain ⟨-, hq'⟩ := Option.ite_none_right_eq_some.mp hop
          obtain rfl := Option.some.inj hq'
          exact tryPromote_cfg _ promoteAt
      | _ => exact managed_cfg.step rfl rfl hop

/-- **The surrender rule.** After every run of atomic operations, a `tick` at a clock reading
that is not earlier than any timestamp of the queue surrenders the spot of a session exactly
when the session holds one, has nothing in flight as it is visited, and the rule applies,
with the stretch that the history of the session gives. A fresh `busy` or `retry` report
keeps the spot, and only sessions of the table surrender one. -/
theorem surrender_iff {cfg : QueueConfig} {ops : List AtomicOp} {w : Watched}
    (h : Run (Steps Watched.step (fun _ op => op.Stamped)) (Watched.init cfg) ops w)
    (hnow : ∀ t ∈ w.queue.timestamps, t ≤ now) (promoteAt : Key → Time) :
    (∀ key s, w.queue.sessions.get? key = some s →
      (key ∈ (w.queue.tick now promoteAt).2.map Prod.fst ↔
        (w.queue.objs s).spotHeld = true ∧
        (∃ q, (q, key, s) ∈ w.queue.visits now promoteAt ∧ (q.objs s).inflight = 0) ∧
        (w.queue.objs s).SurrenderRule cfg now (stretchStart w.sightings s)) ∧
      ((w.queue.objs s).client ≠ "unknown" →
        (w.queue.objs s).FreshlyReports now .busy ∨ (w.queue.objs s).FreshlyReports now .retry →
        key ∉ (w.queue.tick now promoteAt).2.map Prod.fst)) ∧
    (∀ key ∈ (w.queue.tick now promoteAt).2.map Prod.fst,
      ∃ s, w.queue.sessions.get? key = some s) := by
  have hinv : Clocked w.sightings w.queue ∧ w.queue.cfg = cfg := by
    refine h.invariant (I := fun w => Clocked w.sightings w.queue ∧ w.queue.cfg = cfg) ?_
      ⟨.init cfg, rfl⟩
    rintro w op w' ⟨hclocked, hcfg⟩ ⟨hstep, hstamped⟩
    obtain ⟨q, hq, rfl⟩ := Option.map_eq_some_iff.mp hstep
    exact ⟨hclocked.step hstamped hq, (atomicStep_cfg hq).trans hcfg⟩
  obtain ⟨hclocked, rfl⟩ := hinv
  refine ⟨fun key s hs => ?_, fun key hkey => ?_⟩
  · have hiff := hclocked.mem_released_iff hs hnow promoteAt
    refine ⟨hiff, fun hknown hactive hreleased => ?_⟩
    exact Session.not_surrenderRule_of_active hknown hactive (hiff.mp hreleased).2.2
  · obtain ⟨v, hv, rfl, -⟩ := EndpointQueue.mem_released_iff.mp hkey
    exact ⟨v.2.2, get?_of_mem_visits hv⟩

/-- Known clients keep a spot for a minute, or until they report that they are idle. -/
def immediateRelease : QueueConfig := .ofArgs 2 1 300 60 false true

/-- A request of the client's session `id`. -/
def opencodeRequest (id : String) : Requester := ⟨"opencode", id, "api", "10.0.0.1", "opencode/1.0"⟩

/-- Two sessions are served and found idle by a tick. A third one waits, and the client
reports that the first has been idle since its last response. -/
def idleSessions : List AtomicOp :=
  [.queue (.setReady true), .getOrCreateSession (opencodeRequest "a") 1, .enqueue 0 "/x" 1 1,
    .queue (.admitQueued (opencodeRequest "b") "/y" 2 2 2), .queue (.release 0 5 5),
    .queue (.release 1 6 6), .queue (.tick 7 fun _ => 7),
    .queue (.admitQueued (opencodeRequest "c") "/z" 8 8 8),
    .queue (.setClientStatus 0 (some .idle) "" 9)]

theorem surrender_iff_idleSessions :
    ∃ w, exec Watched.step (Watched.init immediateRelease) idleSessions = some w ∧
      stretchStart w.sightings 0 = some 7 ∧
      (w.queue.objs 0).SurrenderRule immediateRelease 20 (stretchStart w.sightings 0) := by
  have hview : (exec Watched.step (Watched.init immediateRelease) idleSessions).map
      (fun w => (stretchStart w.sightings 0, w.queue.sessions.get? ("opencode", "a"),
        decide (∀ t ∈ w.queue.timestamps, t ≤ 20),
        decide (("opencode", "a") ∈ (w.queue.tick 20 fun _ => 20).2.map Prod.fst))) =
      some (some 7, some 0, true, true) := by
    decide +kernel
  obtain ⟨w, hexec, hw⟩ := Option.map_eq_some_iff.mp hview
  obtain ⟨hstart, hw⟩ := Prod.mk.inj hw
  obtain ⟨hs, hw⟩ := Prod.mk.inj hw
  obtain ⟨hnow, hreleased⟩ := Prod.mk.inj hw
  have hrun := run_of_exec AtomicOp.Stamped hexec (by
    simp [idleSessions, AtomicOp.Stamped])
  have hrule := (surrender_iff hrun (of_decide_eq_true hnow) fun _ => 20).1 _ _ hs
  exact ⟨w, hexec, hstart, (hrule.1.mp (of_decide_eq_true hreleased)).2.2⟩

end EndpointQueue

end Relay
