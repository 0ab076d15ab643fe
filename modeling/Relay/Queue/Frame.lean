import Relay.Library.Counting
import Relay.Queue.Basic

/-!
# Relay.Queue.Frame

What each operation of `EndpointQueue` writes, said once. An operation changes at
most one session object, by a function named here, and the lemmas give that
function together with the fields the operation leaves alone. The later modules
use these equations and the induction rules for `_try_promote` and `tick`; they
never unfold an operation that calls another.
-/

namespace Relay

/-! ### The functions the operations apply to a session -/

namespace Session

/-- What a promotion writes to the session of the entry; `acquires` says whether
the session takes a spot of its own. -/
def promoted (acquires : Bool) (now : Time) (x : Session) : Session :=
  { x with
    waiting := x.waiting - 1
    inflight := x.inflight + 1
    idleSince := none
    spotHeld := acquires || x.spotHeld
    spotAcquiredAt := if acquires then now else x.spotAcquiredAt
    status := .busy
    statusDetail := "in-flight request" }

/-- What the bookkeeping of a promotion writes to the session of the entry. -/
def started (x : Session) : Session :=
  { x with waiting := x.waiting - 1, inflight := x.inflight + 1, idleSince := none }

/-- What taking a spot writes to the session. -/
def holding (now : Time) (x : Session) : Session :=
  { x with spotHeld := true, spotAcquiredAt := now }

/-- The status a promotion shows. -/
def running (x : Session) : Session :=
  { x with status := .busy, statusDetail := "in-flight request" }

/-- What `_release_spot` writes to the session. -/
def spotless (x : Session) : Session := { x with spotHeld := false, idleSince := none }

/-- What `enqueue` writes to the session of the entry. -/
def queued (path : String) (x : Session) : Session :=
  { x with waiting := x.waiting + 1, lastPath := path }

/-- What `abandon` writes to the session of the entry. -/
def unqueued (x : Session) : Session := { x with waiting := max 0 (x.waiting - 1) }

/-- What `release` writes to the session of the entry. -/
def finished (now : Time) (x : Session) : Session :=
  { x with
    inflight := if 0 < x.inflight then x.inflight - 1 else x.inflight
    lastRequestAt := now }

/-- What the poller's report writes to a session. -/
def reported (status : Option Status) (detail : String) (at' : Time) (x : Session) : Session :=
  { x with clientStatus := status, clientStatusDetail := detail, clientStatusAt := at' }

/-- What the poller's sharing decision writes to a session. -/
def sharing (key : Option Key) (x : Session) : Session := { x with sharedSpotKey := key }

theorem cosmetic_running : Cosmetic running :=
  ⟨fun _ => rfl, fun _ => rfl, fun _ => rfl, fun _ => rfl⟩

theorem cosmetic_reported (status : Option Status) (detail : String) (at' : Time) :
    Cosmetic (reported status detail at') :=
  ⟨fun _ => rfl, fun _ => rfl, fun _ => rfl, fun _ => rfl⟩

theorem cosmetic_sharing (key : Option Key) : Cosmetic (sharing key) :=
  ⟨fun _ => rfl, fun _ => rfl, fun _ => rfl, fun _ => rfl⟩

end Session

namespace EndpointQueue

variable {q : EndpointQueue} {e : EntryRef} {s : SessionRef} {now : Time}

/-! ### The history -/

@[simp] theorem runningOf_nil : runningOf [] = [] := rfl

@[simp] theorem runningOf_snoc_enqueued (log : List QueueEvent) (e : EntryRef) :
    runningOf (log ++ [.enqueued e]) = runningOf log := by
  simp [runningOf, List.foldl_append]

@[simp] theorem runningOf_snoc_abandoned (log : List QueueEvent) (e : EntryRef) :
    runningOf (log ++ [.abandoned e]) = runningOf log := by
  simp [runningOf, List.foldl_append]

@[simp] theorem runningOf_snoc_promoted (log : List QueueEvent) (e : EntryRef) :
    runningOf (log ++ [.promoted e]) = runningOf log ++ [e] := by
  simp [runningOf, List.foldl_append]

@[simp] theorem runningOf_snoc_released (log : List QueueEvent) (e : EntryRef) :
    runningOf (log ++ [.released e]) = (runningOf log).erase e := by
  simp [runningOf, List.foldl_append]

/-! ### Promotion of one entry -/

theorem mem_spots_of_spotKey {x : Session} {k : Key} (h : q.spotKey x = some k) :
    k ∈ q.spots := by
  unfold spotKey at h
  split at h
  · rename_i hown
    exact Option.some.inj h ▸ hown
  · exact of_decide_eq_true (Option.filter_eq_some_iff.mp h).2

/-- Whether the promotion of `e` gives its session a spot of its own. -/
def acquires (q : EndpointQueue) (e : EntryRef) : Bool :=
  (q.spotKey (q.objs (q.sessionOf e))).isNone

/-- The state in which `promote` asks for the spot of the session answers as the
state before does: the entry's bookkeeping touches neither keys nor spots. -/
theorem startEntry_spotKey (q : EndpointQueue) (e : EntryRef) :
    (q.startEntry e).spotKey ((q.startEntry e).objs (q.sessionOf e)) =
      q.spotKey (q.objs (q.sessionOf e)) := by
  simp only [startEntry, spotKey, Heap.modify_self]
  rfl

theorem startEntry_objs (q : EndpointQueue) (e : EntryRef) :
    (q.startEntry e).objs = q.objs.modify (q.sessionOf e) Session.started := rfl

theorem acquireSpot_objs (q : EndpointQueue) (s : SessionRef) (now : Time) :
    (q.acquireSpot s now).objs = q.objs.modify s (Session.holding now) := rfl

theorem promote_objs (q : EndpointQueue) (now : Time) (e : EntryRef) :
    (q.promote now e).objs =
      q.objs.modify (q.sessionOf e) (Session.promoted (q.acquires e) now) := by
  unfold promote
  simp only [startEntry_spotKey]
  change _ = q.objs.modify (q.sessionOf e) (Session.promoted
    ((q.spotKey (q.objs (q.sessionOf e))).isNone) now)
  split
  · rename_i hacq
    simp only [hacq, startEntry, acquireSpot, Heap.modify_modify]
    rfl
  · rename_i hacq
    simp only [hacq, startEntry, Heap.modify_modify]
    rfl

theorem promote_spots (q : EndpointQueue) (now : Time) (e : EntryRef) :
    (q.promote now e).spots =
      if q.acquires e then q.spots.insert (q.objs (q.sessionOf e)).key now else q.spots := by
  unfold promote
  simp only [startEntry_spotKey]
  change _ = if ((q.spotKey (q.objs (q.sessionOf e))).isNone) then _ else _
  split
  · simp [startEntry, acquireSpot]
  · rfl

theorem promote_cfg (q : EndpointQueue) (now : Time) (e : EntryRef) :
    (q.promote now e).cfg = q.cfg := by
  unfold promote
  dsimp only
  split <;> rfl

theorem promote_sessions (q : EndpointQueue) (now : Time) (e : EntryRef) :
    (q.promote now e).sessions = q.sessions := by
  unfold promote
  dsimp only
  split <;> rfl

theorem promote_ready (q : EndpointQueue) (now : Time) (e : EntryRef) :
    (q.promote now e).ready = q.ready := by
  unfold promote
  dsimp only
  split <;> rfl

theorem promote_queue (q : EndpointQueue) (now : Time) (e : EntryRef) :
    (q.promote now e).queue = q.queue.erase e := by
  unfold promote
  dsimp only
  split <;> rfl

theorem promote_entries (q : EndpointQueue) (now : Time) (e : EntryRef) :
    (q.promote now e).entries =
      q.entries.modify e (fun x => { x with done := true, go := true }) := by
  unfold promote
  dsimp only
  split <;> rfl

theorem promote_inflightTotal (q : EndpointQueue) (now : Time) (e : EntryRef) :
    (q.promote now e).inflightTotal = q.inflightTotal + 1 := by
  unfold promote
  dsimp only
  split <;> rfl

theorem promote_log (q : EndpointQueue) (now : Time) (e : EntryRef) :
    (q.promote now e).log = q.log ++ [.promoted e] := by
  unfold promote
  dsimp only
  split <;> rfl

theorem promote_running (q : EndpointQueue) (now : Time) (e : EntryRef) :
    (q.promote now e).running = q.running ++ [e] := by
  rw [running, promote_log, runningOf_snoc_promoted]
  rfl

theorem promote_sessionOf (q : EndpointQueue) (now : Time) (e e' : EntryRef) :
    (q.promote now e).sessionOf e' = q.sessionOf e' := by
  rw [sessionOf, promote_entries, Heap.modify_apply]
  split
  · rename_i h
    rw [h]
    rfl
  · rfl

/-! ### The promotion loop -/

/-- `e` is the entry `_try_promote` selects: the first of a ready queue that may run. -/
structure Selected (q : EndpointQueue) (e : EntryRef) : Prop where
  ready : q.ready = true
  first : q.queue.find? q.eligible = some e

theorem Selected.mem (h : Selected q e) : e ∈ q.queue := List.mem_of_find?_eq_some h.first

theorem Selected.eligible (h : Selected q e) : q.eligible e = true := List.find?_some h.first

theorem promoteNext_eq_some {q' : EndpointQueue} (h : promoteNext now q = some (e, q')) :
    q.queue.find? q.eligible = some e ∧ q' = q.promote now e := by
  obtain ⟨e', hfind, heq⟩ := Option.map_eq_some_iff.mp h
  obtain ⟨rfl, rfl⟩ := Prod.mk.inj heq
  exact ⟨hfind, rfl⟩

theorem promoteNext_eq_none (now : Time) :
    promoteNext now q = none ↔ ∀ e ∈ q.queue, q.eligible e = false := by
  simp [promoteNext, List.find?_eq_none]

section PromoteInduction

variable {I : EndpointQueue → Prop}

/-- What every promotion preserves, an iteration of the loop on a ready queue
preserves. -/
theorem promoteNext_preserves (hstep : ∀ q e, I q → Selected q e → I (q.promote now e)) :
    ∀ q e q', I q ∧ q.ready = true → promoteNext now q = some (e, q') →
      I q' ∧ q'.ready = true := by
  intro q e q' h hnext
  obtain ⟨hI, hready⟩ := h
  obtain ⟨hfind, rfl⟩ := promoteNext_eq_some hnext
  exact ⟨hstep q e hI ⟨hready, hfind⟩, by rw [promote_ready, hready]⟩

/-- What every promotion preserves, `_try_promote` preserves. -/
theorem tryPromote_induction (hstep : ∀ q e, I q → Selected q e → I (q.promote now e))
    (h : I q) : I (q.tryPromote now) := by
  unfold tryPromote
  split
  · rename_i hready
    exact (Drain.drain_induction (promoteNext_preserves hstep) q.queue.length q ⟨h, hready⟩).1
  · exact h

/-- Every promotion `_try_promote` makes is of the entry it selects, in a state that
satisfies what promotions preserve. -/
theorem promotions_induction (hstep : ∀ q e, I q → Selected q e → I (q.promote now e))
    (h : I q) : ∀ p ∈ q.promotions now, I p.1 ∧ Selected p.1 p.2 := by
  intro p hp
  unfold promotions at hp
  split at hp
  · rename_i hready
    obtain ⟨⟨hI, hr⟩, q', hnext⟩ := Drain.picks_induction (promoteNext_preserves hstep)
      q.queue.length q ⟨h, hready⟩ p hp
    exact ⟨hI, hr, (promoteNext_eq_some hnext).1⟩
  · exact absurd hp List.not_mem_nil

end PromoteInduction

/-- After `_try_promote` on a ready queue, no waiting entry may run. -/
theorem tryPromote_exhausts (q : EndpointQueue) (now : Time) (h : q.ready = true) :
    ∀ e ∈ (q.tryPromote now).queue, (q.tryPromote now).eligible e = false := by
  rw [← promoteNext_eq_none now, tryPromote, if_pos h]
  refine Drain.step_drain_eq_none (μ := fun q => q.queue.length) ?_ _ _ le_rfl
  intro q e q' hnext
  obtain ⟨hfind, rfl⟩ := promoteNext_eq_some hnext
  have hmem : e ∈ q.queue := List.mem_of_find?_eq_some hfind
  rw [promote_queue, List.length_erase_of_mem hmem]
  exact Nat.sub_lt (List.length_pos_of_mem hmem) Nat.one_pos

theorem tryPromote_sessions (q : EndpointQueue) (now : Time) :
    (q.tryPromote now).sessions = q.sessions :=
  tryPromote_induction (I := fun q' => q'.sessions = q.sessions)
    (fun q' e hq' _ => (promote_sessions q' now e).trans hq') rfl

theorem tryPromote_cfg (q : EndpointQueue) (now : Time) : (q.tryPromote now).cfg = q.cfg :=
  tryPromote_induction (I := fun q' => q'.cfg = q.cfg)
    (fun q' e hq' _ => (promote_cfg q' now e).trans hq') rfl

theorem tryPromote_ready (q : EndpointQueue) (now : Time) :
    (q.tryPromote now).ready = q.ready :=
  tryPromote_induction (I := fun q' => q'.ready = q.ready)
    (fun q' e hq' _ => (promote_ready q' now e).trans hq') rfl

/-! ### The other operations on one session -/

theorem getOrCreateSession_cfg (q : EndpointQueue) (r : Requester) (now : Time) :
    (q.getOrCreateSession r now).2.cfg = q.cfg := by
  unfold getOrCreateSession
  split <;> rfl

theorem getOrCreateSession_spots (q : EndpointQueue) (r : Requester) (now : Time) :
    (q.getOrCreateSession r now).2.spots = q.spots := by
  unfold getOrCreateSession
  split <;> rfl

theorem append_objs (q : EndpointQueue) (e : EntryRef) :
    (q.append e).objs = q.objs.modify (q.sessionOf e) (Session.queued (q.entries e).path) := rfl

theorem append_log (q : EndpointQueue) (e : EntryRef) :
    (q.append e).log = q.log ++ [.enqueued e] := rfl

theorem abandon_objs {q : EndpointQueue} {e : EntryRef} (h : (q.entries e).done = false) :
    (q.abandon e).objs = q.objs.modify (q.sessionOf e) Session.unqueued := by
  simp only [abandon, h]
  rfl

theorem finish_objs (q : EndpointQueue) (e : EntryRef) (now : Time) :
    (q.finish e now).objs = q.objs.modify (q.sessionOf e) (Session.finished now) := by
  apply congrArg (Heap.mk · q.objs.next)
  simp [Session.finished]

theorem freeSpot_objs (q : EndpointQueue) (s : SessionRef) (key : Key) :
    (q.freeSpot s key).objs = q.objs.modify s Session.spotless := rfl

/-- `release_session` surrenders the spot of the named session, or does nothing. -/
theorem releaseSession_cases (q : EndpointQueue) (client sessionId : String) (now : Time) :
    (∃ s, q.sessions.get? (client, sessionId) = some s ∧ (q.objs s).spotHeld = true ∧
      q.releaseSession client sessionId now = (true, q.releaseSpot s (client, sessionId) now)) ∨
    ((∀ s, q.sessions.get? (client, sessionId) = some s → (q.objs s).spotHeld = false) ∧
      q.releaseSession client sessionId now = (false, q)) := by
  unfold releaseSession
  cases hs : q.sessions.get? (client, sessionId) with
  | none => simp
  | some s => cases hheld : (q.objs s).spotHeld <;> simp [hheld]

/-! ### The visits of `tick` -/

/-- What a visit does: it recomputes the status, and then surrenders the spot,
forgets the session, or leaves it. -/
theorem visit_cases (q : EndpointQueue) (now promoteAt : Time) (key : Key) (s : SessionRef) :
    (q.surrenders s now = true ∧
      (q.visit now promoteAt key s).1 = (q.recomputeAt s now).releaseSpot s key promoteAt) ∨
    (q.surrenders s now = false ∧ (q.objs s).spotHeld = false ∧ (q.objs s).waiting = 0 ∧
      (q.objs s).inflight = 0 ∧ (q.visit now promoteAt key s).1 =
        { q.recomputeAt s now with sessions := q.sessions.erase key }) ∨
    (q.surrenders s now = false ∧
      ((q.objs s).spotHeld = true ∨ (q.objs s).waiting ≠ 0 ∨ (q.objs s).inflight ≠ 0) ∧
      (q.visit now promoteAt key s).1 = q.recomputeAt s now) := by
  have hobj : (q.recomputeAt s now).objs s = (q.objs s).recompute q.cfg now := by
    simp [recomputeAt]
  have hheld : ((q.objs s).recompute q.cfg now).spotHeld = (q.objs s).spotHeld := rfl
  have hwait : ((q.objs s).recompute q.cfg now).waiting = (q.objs s).waiting := rfl
  have hin : ((q.objs s).recompute q.cfg now).inflight = (q.objs s).inflight := rfl
  unfold visit surrenders
  simp only [hobj, hheld, hwait, hin]
  by_cases hs : (q.objs s).spotHeld
  · by_cases hd : ((q.objs s).recompute q.cfg now).due q.cfg now <;> simp [hs, hd]
  · by_cases hz : (q.objs s).waiting = 0 ∧ (q.objs s).inflight = 0
    · simp [hs, hz, recomputeAt]
    · have : (q.objs s).waiting ≠ 0 ∨ (q.objs s).inflight ≠ 0 := by
        by_cases h0 : (q.objs s).waiting = 0
        · exact Or.inr fun h1 => hz ⟨h0, h1⟩
        · exact Or.inl h0
      simp [hs, hz, this]

theorem visit_cfg (q : EndpointQueue) (now promoteAt : Time) (key : Key) (s : SessionRef) :
    (q.visit now promoteAt key s).1.cfg = q.cfg := by
  rcases visit_cases q now promoteAt key s with ⟨-, heq⟩ | ⟨-, -, -, -, heq⟩ | ⟨-, -, heq⟩
  · rw [heq]
    exact tryPromote_cfg _ promoteAt
  · rw [heq]
    rfl
  · rw [heq]
    rfl

theorem freeSpot_sessions_of_ne (q : EndpointQueue) (s : SessionRef) {key key' : Key}
    (h : key' ≠ key) : (q.freeSpot s key).sessions.get? key' = q.sessions.get? key' := by
  unfold freeSpot
  dsimp only
  split
  · exact OrdDict.get?_erase_of_ne _ h
  · rfl

/-- A visit leaves the other keys of the session table alone. -/
theorem visit_sessions_of_ne (q : EndpointQueue) (now promoteAt : Time) (s : SessionRef)
    {key key' : Key} (h : key' ≠ key) :
    (q.visit now promoteAt key s).1.sessions.get? key' = q.sessions.get? key' := by
  rcases visit_cases q now promoteAt key s with ⟨-, heq⟩ | ⟨-, -, -, -, heq⟩ | ⟨-, -, heq⟩
  · rw [heq, releaseSpot, tryPromote_sessions, freeSpot_sessions_of_ne _ _ h]
    rfl
  · rw [heq]
    exact OrdDict.get?_erase_of_ne _ h
  · rw [heq]
    rfl

section TickInduction

variable {I : EndpointQueue → Prop} {P : EndpointQueue → Key → SessionRef → Prop}
  {promoteAt : Key → Time}

/-- The loop of `tick` over a duplicate-free part of the session table: what each
visit preserves holds at the end and in every state a visit starts from. -/
theorem tickLoop_induction
    (hvisit : ∀ q key s, I q → q.sessions.get? key = some s → P q key s →
      I (q.visit now (promoteAt key) key s).1) :
    ∀ (rest : List (Key × SessionRef)) (q : EndpointQueue), (rest.map Prod.fst).Nodup →
      (∀ p ∈ rest, q.sessions.get? p.1 = some p.2) →
      (∀ v ∈ visitsOf now promoteAt q rest, P v.1 v.2.1 v.2.2) → I q →
      I (tickLoop now promoteAt q rest).1 ∧
        ∀ v ∈ visitsOf now promoteAt q rest, I v.1 ∧ v.1.sessions.get? v.2.1 = some v.2.2
  | [], q, _, _, _, h => ⟨h, by simp [visitsOf]⟩
  | (key, s) :: rest, q, hnd, hreg, hP, h => by
      have hhead : q.sessions.get? key = some s := hreg (key, s) List.mem_cons_self
      simp only [List.map_cons, List.nodup_cons] at hnd
      have hnext := hvisit q key s h hhead (hP (q, key, s) (by simp [visitsOf]))
      have hreg' : ∀ p ∈ rest,
          (q.visit now (promoteAt key) key s).1.sessions.get? p.1 = some p.2 := by
        intro p hp
        have hne : p.1 ≠ key := fun heq =>
          hnd.1 (heq ▸ List.mem_map_of_mem (f := Prod.fst) hp)
        rw [visit_sessions_of_ne _ _ _ _ hne]
        exact hreg p (List.mem_cons_of_mem _ hp)
      obtain ⟨hend, hvisits⟩ := tickLoop_induction hvisit rest _ hnd.2 hreg'
        (fun v hv => hP v (by simp [visitsOf, hv])) hnext
      refine ⟨hend, ?_⟩
      intro v hv
      simp only [visitsOf, List.mem_cons] at hv
      rcases hv with rfl | hv
      · exact ⟨h, hhead⟩
      · exact hvisits v hv

/-- What each visit preserves, `tick` preserves; `P` may be assumed of the visits
when it holds of all of them. -/
theorem tick_induction
    (hvisit : ∀ q key s, I q → q.sessions.get? key = some s → P q key s →
      I (q.visit now (promoteAt key) key s).1)
    (hP : ∀ v ∈ q.visits now promoteAt, P v.1 v.2.1 v.2.2) (h : I q) :
    I (q.tick now promoteAt).1 :=
  (tickLoop_induction hvisit q.sessions.entries q q.sessions.nodup
    (fun _ hp => OrdDict.get?_eq_some_iff.mpr hp) hP h).1

/-- The states the visits of a `tick` start from satisfy what visits preserve, and
the visited session is still the one stored under its key. -/
theorem visits_induction
    (hvisit : ∀ q key s, I q → q.sessions.get? key = some s → P q key s →
      I (q.visit now (promoteAt key) key s).1)
    (hP : ∀ v ∈ q.visits now promoteAt, P v.1 v.2.1 v.2.2) (h : I q) :
    ∀ v ∈ q.visits now promoteAt, I v.1 ∧ v.1.sessions.get? v.2.1 = some v.2.2 :=
  (tickLoop_induction hvisit q.sessions.entries q q.sessions.nodup
    (fun _ hp => OrdDict.get?_eq_some_iff.mpr hp) hP h).2

end TickInduction

end EndpointQueue

end Relay
