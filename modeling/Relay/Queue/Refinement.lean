import Mathlib.Data.List.Find
import Relay.Library.Slots
import Relay.Queue.Turns

/-!
# Relay.Queue.Refinement

**What the spot queue is for.** `slots q` forgets the counters, the session objects, the clocks
and the statuses of an `EndpointQueue`: the entries that wait and run are jobs of a session key,
the keys of `spots` own slots, and `shared_spot_key` is what another session lends. What is left
is a scheduler of `Relay.Library.Slots`.

`labelsOf` says what an operation of the queue is for that scheduler; a `tick` is the surrenders
it makes, in the order of its visits. `queue_refines_slots` is the refinement: every run of queue
operations is, label by label, a run of the scheduler, and starts the same entries. The counters
and flags of the source decide nothing that the scheduler would decide otherwise.
-/

namespace Relay

open Runs

/-- The limits of a queue, as those of a scheduler. -/
def QueueConfig.limits (cfg : QueueConfig) : Slots.Limits where
  capacity := cfg.maxSpots
  perOwner := cfg.maxInflightPerSession
  exclusive := cfg.atomicRequests

/-- An entry, with the key of the session it belongs to. -/
abbrev SlotJob := EntryRef × Key

namespace EndpointQueue

variable {cfg : QueueConfig} {q q' : EndpointQueue} {e : EntryRef} {s : SessionRef} {now : Time}

/-- An entry as a job. -/
def job (q : EndpointQueue) (e : EntryRef) : SlotJob := (e, q.keyOf e)

/-- The session that lends its spot to the session stored under a key. -/
def lender (q : EndpointQueue) (k : Key) : Option Key :=
  (q.sessions.get? k).bind (fun s => (q.objs s).sharedSpotKey)

/-- The queue as a scheduler. -/
def slots (q : EndpointQueue) : Slots.State Key SlotJob where
  waiting := q.queue.map q.job
  running := q.running.map q.job
  slots := q.spots.keys
  lends := q.lender
  ready := q.ready

/-- What a visit of `tick` is for the scheduler. -/
def visitLabels (now : Time) (v : EndpointQueue × Key × SessionRef) :
    List (Slots.Label Key SlotJob) :=
  let session := v.1.objs v.2.2
  if v.1.surrenders v.2.2 now then [.surrender v.2.1]
  else if session.spotHeld = false ∧ session.waiting = 0 ∧ session.inflight = 0 then
    [.lend v.2.1 none]
  else []

/-- What an operation is for the scheduler. -/
def labelsOf (q : EndpointQueue) : QueueOp → List (Slots.Label Key SlotJob)
  | .admitQueued r _ _ _ _ => [.submit (q.entries.next, r.key)]
  | .abandon e => [.cancel (q.job e)]
  | .release e _ _ => [.finish (q.job e)]
  | .releaseSession client sessionId _ =>
      match q.sessions.get? (client, sessionId) with
      | some s => if (q.objs s).spotHeld then [.surrender (client, sessionId)] else []
      | none => []
  | .tick now promoteAt => (q.visits now promoteAt).flatMap (visitLabels now)
  | .setReady ready => [.setReady ready]
  | .tryPromote _ => [.settle]
  | .setClientStatus .. => []
  | .setSharedSpotKey s key =>
      -- the poller may hold an object the table has dropped
      if q.sessions.get? (q.objs s).key = some s then [.lend (q.objs s).key key] else []

/-- A promotion, as a start of the scheduler. -/
def asStart (p : EndpointQueue × EntryRef) : Slots.State Key SlotJob × SlotJob :=
  (p.1.slots, p.1.job p.2)

/-! ### The same decisions -/

theorem job_injective (q : EndpointQueue) : Function.Injective q.job := fun _ _ h =>
  congrArg Prod.fst h

theorem map_job_erase (q : EndpointQueue) (l : List EntryRef) (e : EntryRef) :
    (l.erase e).map q.job = @List.erase _ instBEqOfDecidableEq (l.map q.job) (q.job e) :=
  @List.map_erase _ _ _ _ instBEqOfDecidableEq _ _ q.job_injective _ _

theorem lender_of_registered (h : q.Registered s) :
    q.lender (q.objs s).key = (q.objs s).sharedSpotKey := by
  have hs : q.sessions.get? (q.objs s).key = some s := h
  rw [lender, hs, Option.bind_some]

/-- `_spot_key` finds the slot the scheduler finds. -/
theorem slotOf_eq_spotKey (h : q.Registered s) :
    q.slots.slotOf (q.objs s).key = q.spotKey (q.objs s) := by
  have hlends : q.slots.lends (q.objs s).key = (q.objs s).sharedSpotKey := lender_of_registered h
  unfold Slots.State.slotOf spotKey
  rw [hlends]
  rfl

/-- The counter of a session is the number of its jobs that run. -/
theorem Sound.countP_running (h : Sound cfg q) (hs : q.Registered (q.sessionOf e)) :
    (q.slots.running.countP (fun b => decide (b.2 = (q.job e).2)) : Int) =
      (q.objs (q.sessionOf e)).inflight := by
  have hinflight : (q.objs (q.sessionOf e)).inflight = q.runningCount (q.sessionOf e) := by
    simpa using h.accounts.inflight_eq (q.sessionOf e)
  rw [hinflight, runningCount]
  change ((q.running.map q.job).countP _ : Int) = _
  rw [List.countP_map]
  refine congrArg Nat.cast (List.countP_congr fun e' he' => ?_)
  have hreg := h.registry.registered_of_mem_running h.accounts he'
  -- of two registered sessions, the key tells which is which
  have hiff : (q.job e').2 = (q.job e).2 ↔ q.sessionOf e' = q.sessionOf e :=
    ⟨Registry.registered_unique hreg hs, congrArg (fun s => (q.objs s).key)⟩
  rw [Function.comp_apply, decide_eq_true_iff, decide_eq_true_iff, hiff]

/-- `_eligible` decides as the scheduler does. -/
theorem Sound.mayStart_eq (h : Sound cfg q) (he : e ∈ q.queue) :
    q.slots.mayStart cfg.limits Prod.snd (q.job e) = q.eligible e := by
  have hreg := h.registry.registered_of_mem_queue h.accounts he
  have hspot : q.slots.slotless (q.job e).2 = (q.spotKey (q.objs (q.sessionOf e))).isNone :=
    congrArg Option.isNone (slotOf_eq_spotKey hreg)
  have hbusy : (!q.slots.running.isEmpty) = decide (0 < q.inflightTotal) := by
    rw [h.accounts.total_eq]
    change (!(q.running.map q.job).isEmpty) = _
    cases q.running <;> simp
  have hfree : q.slots.slots.length = q.spots.size := OrdDict.length_keys q.spots
  unfold Slots.State.mayStart eligible
  rw [hbusy, hspot, h.countP_running hreg, hfree, ← h.cfg_eq]
  cases hkey : q.spotKey (q.objs (q.sessionOf e)) with
  | none =>
      simp only [hkey, Option.isNone_none, Option.isSome_none, if_true, Bool.false_eq_true,
        if_false]
      rfl
  | some k =>
      have hperOwner : q.cfg.limits.perOwner = q.cfg.maxInflightPerSession := rfl
      simp only [hkey, Option.isNone_some, Option.isSome_some, if_true, Bool.false_eq_true,
        if_false, hperOwner]
      by_cases hcap : q.cfg.maxInflightPerSession < 0
      · rw [decide_eq_true hcap, Bool.true_or, if_pos hcap]
        rfl
      · rw [decide_eq_false hcap, Bool.false_or, if_neg hcap]
        rfl

/-! ### The same effects -/

theorem job_modify {f : Session → Session} (hkey : ∀ x, (f x).key = x.key)
    (hentries : q'.entries = q.entries) (hobjs : q'.objs = q.objs.modify s f) : q'.job = q.job :=
  funext fun e => congrArg (Prod.mk e) (keyOf_modify hkey hentries hobjs e)

theorem lender_modify {f : Session → Session} (hshared : ∀ x, (f x).sharedSpotKey = x.sharedSpotKey)
    (hsessions : q'.sessions = q.sessions) (hobjs : q'.objs = q.objs.modify s f) :
    q'.lender = q.lender := by
  funext k
  rw [lender, lender, hsessions, hobjs]
  exact congrArg _ (funext fun s' => Heap.modify_proj Session.sharedSpotKey _ _ f hshared s')

/-- Writes to session objects that touch neither keys nor shared spots are not seen. -/
theorem slots_modify {f : Session → Session} (hkey : ∀ x, (f x).key = x.key)
    (hshared : ∀ x, (f x).sharedSpotKey = x.sharedSpotKey) (hqueue : q'.queue = q.queue)
    (hrunning : q'.running = q.running) (hspots : q'.spots.keys = q.spots.keys)
    (hready : q'.ready = q.ready) (hentries : q'.entries = q.entries)
    (hsessions : q'.sessions = q.sessions) (hobjs : q'.objs = q.objs.modify s f) :
    q'.slots = q.slots := by
  unfold slots
  rw [hqueue, hrunning, hspots, hready, job_modify hkey hentries hobjs,
    lender_modify hshared hsessions hobjs]

/-- A promotion starts the job of the entry. -/
theorem Sound.slots_promote (h : Sound cfg q) (hsel : Selected q e) (now : Time) :
    (q.promote now e).slots = q.slots.start Prod.snd (q.job e) := by
  have hreg := h.registry.registered_of_mem_queue h.accounts hsel.mem
  have hjob : (q.promote now e).job = q.job :=
    funext fun e' => congrArg (Prod.mk e') (promote_keyOf q now e e')
  have hspot : q.slots.slotless (q.job e).2 = q.acquires e :=
    congrArg Option.isNone (slotOf_eq_spotKey hreg)
  refine Slots.State.ext ?_ ?_ ?_ ?_ (promote_ready q now e)
  · change (q.promote now e).queue.map (q.promote now e).job = _
    rw [hjob, promote_queue]
    exact map_job_erase q q.queue e
  · change (q.promote now e).running.map (q.promote now e).job = q.running.map q.job ++ [q.job e]
    rw [hjob, promote_running, List.map_append]
    rfl
  · change (q.promote now e).spots.keys =
      if q.slots.slotless (q.job e).2 then q.spots.keys ++ [(q.job e).2] else q.spots.keys
    rw [hspot, promote_spots]
    split
    · rename_i hacq
      exact OrdDict.keys_insert_of_not_mem (Registry.not_mem_of_spotKey_isNone hacq)
    · rfl
  · exact lender_modify (f := Session.promoted _ now) (fun _ => rfl) (promote_sessions q now e)
      (promote_objs q now e)

/-- An iteration of the promotion loop is one of the scheduler. -/
theorem Sound.startNext_eq (h : Sound cfg q) (hready : q.ready = true) (now : Time) :
    (promoteNext now q).map (fun p => (q.job p.1, p.2.slots)) =
      q.slots.startNext cfg.limits Prod.snd := by
  have hfind : q.slots.waiting.find? (q.slots.mayStart cfg.limits Prod.snd) =
      (q.queue.find? q.eligible).map q.job := by
    change (q.queue.map q.job).find? _ = _
    rw [List.find?_map]
    refine congrArg (Option.map q.job) (List.find?_congr fun e he => ?_)
    exact h.mayStart_eq he
  unfold promoteNext Slots.State.startNext
  rw [hfind, Option.map_map, Option.map_map]
  cases hsel : q.queue.find? q.eligible with
  | none => rfl
  | some e =>
      exact congrArg some (congrArg (Prod.mk (q.job e)) (h.slots_promote ⟨hready, hsel⟩ now))

/-- `_try_promote` settles the scheduler, and promotes the entries whose jobs that starts. -/
theorem Sound.slots_tryPromote (h : Sound cfg q) (now : Time) :
    (q.tryPromote now).slots = q.slots.settle cfg.limits Prod.snd ∧
      (q.promotions now).map asStart = q.slots.starts cfg.limits Prod.snd := by
  have hlength : q.slots.waiting.length = q.queue.length := List.length_map _
  unfold tryPromote promotions Slots.State.settle Slots.State.starts
  have hready : q.slots.ready = q.ready := rfl
  rw [hready, hlength]
  split
  · rename_i hr
    exact Simulation.drain_simulates (I := fun q => Sound cfg q ∧ q.ready = true)
      (promoteNext_preserves fun q e hs hsel => managed_sound.promote q e now hs hsel)
      (fun q hq => hq.1.startNext_eq hq.2 now) q.queue.length q ⟨h, hr⟩
  · exact ⟨rfl, rfl⟩

/-! ### The parts of an operation -/

/-- `get_or_create_session` changes nothing that a session lends. -/
theorem getOrCreateSession_lender (h : Registry q) (r : Requester) (now : Time) :
    (q.getOrCreateSession r now).2.lender = q.lender := by
  funext k
  unfold lender getOrCreateSession
  cases hs : q.sessions.get? r.key with
  | none =>
      change ((q.sessions.insert r.key q.objs.next).get? k).bind
        (fun s => (q.objs.alloc (Session.new r now) s).sharedSpotKey) = _
      rw [OrdDict.get?_insert]
      split
      · rename_i hk
        rw [hk, hs, Option.bind_some, Heap.alloc_self]
        rfl
      · cases hk : q.sessions.get? k with
        | none => rfl
        | some s => exact congrArg Session.sharedSpotKey (Heap.alloc_of_lt _ _ (h.alloc_lt k s hk))
  | some s =>
      exact congrArg _ (funext fun s' =>
        Heap.modify_proj Session.sharedSpotKey _ _ (Session.revive r now) (fun _ => rfl) s')

/-- The session a request is filed under has the key of the request. -/
theorem getOrCreateSession_key_self (h : Registry q) (r : Requester) (now : Time) :
    ((q.getOrCreateSession r now).2.objs (q.getOrCreateSession r now).1).key = r.key := by
  unfold getOrCreateSession
  cases hs : q.sessions.get? r.key with
  | none => exact congrArg Session.key (Heap.alloc_self _ _)
  | some s =>
      exact (Heap.modify_proj Session.key _ _ (Session.revive r now) (fun _ => rfl) s).trans
        (h.key_of _ s hs)

theorem prepare_keyOf_self (h : Registry q) (r : Requester) (path : String)
    (sessionAt queuedAt : Time) :
    (q.prepare r path sessionAt queuedAt).2.keyOf q.entries.next = r.key := by
  have hentries : (q.getOrCreateSession r sessionAt).2.entries = q.entries := by
    unfold getOrCreateSession
    cases q.sessions.get? r.key <;> rfl
  have hsession : (q.prepare r path sessionAt queuedAt).2.sessionOf q.entries.next =
      (q.getOrCreateSession r sessionAt).1 := by
    rw [← hentries]
    exact congrArg QueueEntry.session (Heap.alloc_self _ _)
  rw [keyOf, hsession]
  exact getOrCreateSession_key_self h r sessionAt

theorem append_keyOf (q : EndpointQueue) (e e' : EntryRef) : (q.append e).keyOf e' = q.keyOf e' :=
  keyOf_modify (f := Session.queued (q.entries e).path) (fun _ => rfl)
    (show (q.append e).entries = q.entries from rfl) (append_objs q e) e'

/-- An admission submits the job of a new entry. -/
theorem Sound.slots_append (h : Sound cfg q) (r : Requester) (path : String)
    (sessionAt queuedAt : Time) :
    ((q.prepare r path sessionAt queuedAt).2.append (q.prepare r path sessionAt queuedAt).1).slots =
      q.slots.apply Prod.snd (.submit (q.entries.next, r.key)) := by
  obtain ⟨hfresh, -, hqueue, hlog, hready⟩ := prepare_frame q r path sessionAt queuedAt
  have hlender := getOrCreateSession_lender h.registry r sessionAt
  have hspots := getOrCreateSession_spots q r sessionAt
  have hself := prepare_keyOf_self h.registry r path sessionAt queuedAt
  have hold : ∀ e < q.entries.next, (q.prepare r path sessionAt queuedAt).2.job e = q.job e :=
    fun e he => congrArg (Prod.mk e) (prepare_keyOf h.accounts r path sessionAt queuedAt he)
  set prepared := q.prepare r path sessionAt queuedAt
  have hjob : (prepared.2.append prepared.1).job = prepared.2.job :=
    funext fun e => congrArg (Prod.mk e) (append_keyOf _ _ e)
  have hrunning : (prepared.2.append prepared.1).running = q.running := by
    rw [running, append_log, runningOf_snoc_enqueued, hlog]
    rfl
  refine Slots.State.ext ?_ ?_ ?_ ?_ hready
  · change (prepared.2.queue ++ [prepared.1]).map (prepared.2.append prepared.1).job =
      q.queue.map q.job ++ [(q.entries.next, r.key)]
    rw [hjob, hqueue, List.map_append, hfresh, List.map_singleton, job, hself]
    congr 1
    exact List.map_congr_left fun e he => hold e (h.accounts.queue_done e he).1
  · change (prepared.2.append prepared.1).running.map (prepared.2.append prepared.1).job =
      q.running.map q.job
    rw [hjob, hrunning]
    exact List.map_congr_left fun e he => hold e (h.accounts.running_done e he).1
  · exact congrArg OrdDict.keys hspots
  · exact (lender_modify (f := Session.queued _) (fun _ => rfl)
      (show (prepared.2.append prepared.1).sessions = prepared.2.sessions from rfl)
      (append_objs _ _)).trans hlender

/-- An entry that waits no longer is a cancelled job. -/
theorem Sound.slots_abandon (h : Sound cfg q) (he : e ∈ q.queue) :
    (q.abandon e).slots = q.slots.apply Prod.snd (.cancel (q.job e)) := by
  have hdone := (h.accounts.queue_done e he).2
  have heq : q.abandon e = { q with
      queue := q.queue.erase e
      objs := q.objs.modify (q.sessionOf e) Session.unqueued
      log := q.log ++ [.abandoned e] } := by
    simp only [EndpointQueue.abandon, hdone]
    rfl
  have hframe : (q.abandon e).slots = { q.slots with waiting := (q.queue.erase e).map q.job } := by
    have hjob : (q.abandon e).job = q.job :=
      job_modify (f := Session.unqueued) (fun _ => rfl) (by rw [heq]) (abandon_objs hdone)
    have hlender : (q.abandon e).lender = q.lender :=
      lender_modify (f := Session.unqueued) (fun _ => rfl) (by rw [heq]) (abandon_objs hdone)
    have hrunning : (q.abandon e).running = q.running := by
      rw [heq]
      exact runningOf_snoc_abandoned q.log e
    unfold slots
    rw [hjob, hlender, hrunning, heq]
  rw [hframe, map_job_erase]
  rfl

/-- A released entry is a finished job. -/
theorem slots_finish (q : EndpointQueue) (e : EntryRef) (now : Time) :
    (q.finish e now).slots = q.slots.apply Prod.snd (.finish (q.job e)) := by
  have hjob : (q.finish e now).job = q.job :=
    job_modify (f := Session.finished now) (fun _ => rfl)
      (show (q.finish e now).entries = q.entries from rfl) (finish_objs q e now)
  have hlender : (q.finish e now).lender = q.lender :=
    lender_modify (f := Session.finished now) (fun _ => rfl)
      (show (q.finish e now).sessions = q.sessions from rfl) (finish_objs q e now)
  have hrunning : (q.finish e now).running = q.running.erase e := runningOf_snoc_released q.log e
  have hframe : (q.finish e now).slots =
      { q.slots with running := (q.running.erase e).map q.job } := by
    unfold slots
    rw [hjob, hlender, hrunning]
    rfl
  rw [hframe, map_job_erase]
  rfl

/-- A session without a request has no job. -/
theorem Sound.isGone_iff (h : Sound cfg q) (hs : q.Registered s) :
    q.slots.isGone Prod.snd (q.objs s).key = true ↔
      (q.objs s).waiting = 0 ∧ (q.objs s).inflight = 0 := by
  have hwaiting : (q.objs s).waiting = 0 ↔ ∀ e ∈ q.queue, q.sessionOf e ≠ s := by
    rw [h.accounts.waiting_eq, Int.natCast_eq_zero, waitingCount, List.countP_eq_zero]
    simp
  have hinflight : (q.objs s).inflight = 0 ↔ ∀ e ∈ q.running, q.sessionOf e ≠ s := by
    have heq : (q.objs s).inflight = q.runningCount s := by simpa using h.accounts.inflight_eq s
    rw [heq, Int.natCast_eq_zero, runningCount, List.countP_eq_zero]
    simp
  have hjob : ∀ e ∈ q.queue ++ q.running, (q.job e).2 = (q.objs s).key ↔ q.sessionOf e = s := by
    intro e he
    have hreg : q.Registered (q.sessionOf e) := by
      rcases List.mem_append.mp he with he | he
      · exact h.registry.registered_of_mem_queue h.accounts he
      · exact h.registry.registered_of_mem_running h.accounts he
    exact ⟨Registry.registered_unique hreg hs, congrArg (fun s => (q.objs s).key)⟩
  rw [hwaiting, hinflight]
  unfold Slots.State.isGone
  change (q.queue.map q.job ++ q.running.map q.job).all _ = true ↔ _
  rw [← List.map_append, List.all_map, List.all_eq_true, ← List.forall_mem_append]
  refine forall_congr' fun e => forall_congr' fun he => ?_
  rw [Function.comp_apply, decide_eq_true_iff]
  exact not_congr (hjob e he)

/-- What a session that the table forgets had been lent goes with it. -/
theorem lender_erase (q : EndpointQueue) (key : Key) :
    (fun k => ((q.sessions.erase key).get? k).bind (fun s => (q.objs s).sharedSpotKey)) =
      Function.update q.lender key none := by
  funext k
  by_cases hk : k = key
  · rw [hk, OrdDict.get?_erase_self, Function.update_self]
    rfl
  · rw [OrdDict.get?_erase_of_ne _ hk, Function.update_of_ne hk]
    rfl

/-- A spot given up is a slot surrendered. -/
theorem Sound.slots_freeSpot (h : Sound cfg q) {key : Key} (hs : q.sessions.get? key = some s) :
    (q.freeSpot s key).slots = q.slots.apply Prod.snd (.surrender key) := by
  have hkey : (q.objs s).key = key := h.registry.key_of key s hs
  have hgone := h.isGone_iff (h.registry.registered_of_get? hs)
  rw [hkey] at hgone
  have hjob : (q.freeSpot s key).job = q.job :=
    job_modify (f := Session.spotless) (fun _ => rfl)
      (show (q.freeSpot s key).entries = q.entries from rfl) (freeSpot_objs q s key)
  have hobj : (q.objs.modify s Session.spotless s).waiting = (q.objs s).waiting ∧
      (q.objs.modify s Session.spotless s).inflight = (q.objs s).inflight := by
    rw [Heap.modify_self]
    exact ⟨rfl, rfl⟩
  have hshared : ∀ s', (q.objs.modify s Session.spotless s').sharedSpotKey =
      (q.objs s').sharedSpotKey :=
    Heap.modify_proj Session.sharedSpotKey q.objs s Session.spotless fun _ => rfl
  have hsessions : (q.freeSpot s key).sessions =
      if (q.objs s).waiting = 0 ∧ (q.objs s).inflight = 0 then q.sessions.erase key
      else q.sessions := by
    rw [← hobj.1, ← hobj.2]
    rfl
  refine Slots.State.ext ?_ ?_ ?_ ?_ rfl
  · exact congrArg (fun job => q.queue.map job) hjob
  · exact congrArg (fun job => q.running.map job) hjob
  · exact OrdDict.keys_erase q.spots key
  · change (fun k => ((q.freeSpot s key).sessions.get? k).bind
      (fun s' => ((q.freeSpot s key).objs s').sharedSpotKey)) =
      if q.slots.isGone Prod.snd key then Function.update q.lender key none else q.lender
    rw [freeSpot_objs, hsessions]
    simp only [hshared]
    by_cases hdead : (q.objs s).waiting = 0 ∧ (q.objs s).inflight = 0
    · rw [if_pos hdead, if_pos (hgone.mpr hdead)]
      exact lender_erase q key
    · rw [if_neg hdead, if_neg fun hg => hdead (hgone.mp hg)]
      rfl

theorem slots_recomputeAt (q : EndpointQueue) (s : SessionRef) (now : Time) :
    (q.recomputeAt s now).slots = q.slots :=
  slots_modify (f := Session.recompute q.cfg now) (fun _ => rfl) (fun _ => rfl) rfl rfl rfl rfl rfl
    rfl rfl

/-- A session that the table forgets borrows from nobody. -/
theorem slots_forget (q : EndpointQueue) (key : Key) :
    { q with sessions := q.sessions.erase key }.slots =
      q.slots.apply Prod.snd (.lend key none) :=
  Slots.State.ext rfl rfl rfl (lender_erase q key) rfl

/-- The poller's sharing decision for a session of the table is a loan. -/
theorem Sound.slots_setSharedSpotKey (h : Sound cfg q) (hs : q.Registered s) (key : Option Key) :
    (q.setSharedSpotKey s key).slots = q.slots.apply Prod.snd (.lend (q.objs s).key key) := by
  have hjob : (q.setSharedSpotKey s key).job = q.job :=
    job_modify (f := Session.sharing key) (fun _ => rfl)
      (show (q.setSharedSpotKey s key).entries = q.entries from rfl) rfl
  refine Slots.State.ext ?_ ?_ rfl ?_ rfl
  · exact congrArg (fun job => q.queue.map job) hjob
  · exact congrArg (fun job => q.running.map job) hjob
  · change (fun k => (q.sessions.get? k).bind
      (fun s' => (q.objs.modify s (Session.sharing key) s').sharedSpotKey)) =
      Function.update q.lender (q.objs s).key key
    funext k
    by_cases hk : k = (q.objs s).key
    · have hget : q.sessions.get? (q.objs s).key = some s := hs
      rw [hk, hget, Option.bind_some, Heap.modify_self, Function.update_self]
      rfl
    · rw [Function.update_of_ne hk, lender]
      cases hget : q.sessions.get? k with
      | none => rfl
      | some s' =>
          -- another key is filed under another object
          have hne : s' ≠ s := fun heq => hk (heq ▸ (h.registry.key_of k s' hget).symm)
          exact congrArg Session.sharedSpotKey (Heap.modify_of_ne _ _ hne)

/-- A write to an object the table has dropped is not seen. -/
theorem Sound.slots_setSharedSpotKey_stale (h : Sound cfg q) (hs : ¬ q.Registered s)
    (key : Option Key) : (q.setSharedSpotKey s key).slots = q.slots := by
  have hjob : (q.setSharedSpotKey s key).job = q.job :=
    job_modify (f := Session.sharing key) (fun _ => rfl)
      (show (q.setSharedSpotKey s key).entries = q.entries from rfl) rfl
  refine Slots.State.ext ?_ ?_ rfl ?_ rfl
  · exact congrArg (fun job => q.queue.map job) hjob
  · exact congrArg (fun job => q.running.map job) hjob
  · change (fun k => (q.sessions.get? k).bind
      (fun s' => (q.objs.modify s (Session.sharing key) s').sharedSpotKey)) = q.lender
    funext k
    rw [lender]
    cases hget : q.sessions.get? k with
    | none => rfl
    | some s' =>
        have hne : s' ≠ s := fun heq => hs (heq ▸ h.registry.registered_of_get? hget)
        exact congrArg Session.sharedSpotKey (Heap.modify_of_ne _ _ hne)

/-! ### Operations as runs of the scheduler -/

/-- The scheduler of `q` goes through `labels` to that of `q'`, and starts the jobs of the
promotions on its way. -/
def Follows (cfg : QueueConfig) (labels : List (Slots.Label Key SlotJob))
    (promotions : List (EndpointQueue × EntryRef)) (q q' : EndpointQueue) : Prop :=
  exec (Slots.State.step cfg.limits Prod.snd) q.slots labels = some q'.slots ∧
    Simulation.trace (Slots.State.step cfg.limits Prod.snd)
      (Slots.State.startsOf cfg.limits Prod.snd) q.slots labels = promotions.map asStart

namespace Follows

variable {labels labels' : List (Slots.Label Key SlotJob)}
  {ps ps' : List (EndpointQueue × EntryRef)} {q'' : EndpointQueue}

theorem same (h : q'.slots = q.slots) : Follows cfg [] [] q q' :=
  ⟨congrArg some h.symm, rfl⟩

theorem trans (h : Follows cfg labels ps q q') (h' : Follows cfg labels' ps' q' q'') :
    Follows cfg (labels ++ labels') (ps ++ ps') q q'' := by
  constructor
  · rw [exec_append, h.1]
    exact h'.1
  · rw [Simulation.trace_append _ h.1, h.2, h'.2, List.map_append]

/-- A label after which no job starts. -/
theorem quiet {l : Slots.Label Key SlotJob} (hl : q.slots.possible l = true)
    (hsettles : l.settles = false) (h : q'.slots = q.slots.apply Prod.snd l) :
    Follows cfg [l] [] q q' := by
  have hstep : q.slots.step cfg.limits Prod.snd l = some q'.slots := by
    rw [Slots.State.step, if_pos hl, hsettles, h]
    rfl
  refine ⟨by simp [exec, hstep], ?_⟩
  rw [Simulation.trace_cons hstep, Slots.State.startsOf, hsettles, Bool.and_false]
  rfl

/-- A label after which the promotion loop runs. -/
theorem promoting {l : Slots.Label Key SlotJob} (hsound : Sound cfg q')
    (hl : q.slots.possible l = true) (hsettles : l.settles = true)
    (h : q'.slots = q.slots.apply Prod.snd l) (now : Time) :
    Follows cfg [l] (q'.promotions now) q (q'.tryPromote now) := by
  obtain ⟨hend, hstarts⟩ := hsound.slots_tryPromote now
  have hstep : q.slots.step cfg.limits Prod.snd l = some (q'.tryPromote now).slots := by
    rw [Slots.State.step, if_pos hl, hsettles, hend, h]
    rfl
  refine ⟨by simp [exec, hstep], ?_⟩
  rw [Simulation.trace_cons hstep, Slots.State.startsOf, hl, hsettles, hstarts, h]
  exact List.append_nil _

/-- The surrender of a spot, with the promotions that follow. -/
theorem freeSpot (h : Sound cfg q) {key : Key} (hs : q.sessions.get? key = some s)
    (hheld : (q.objs s).spotHeld = true) (now : Time) :
    Follows cfg [.surrender key] ((q.freeSpot s key).promotions now) q
      (q.releaseSpot s key now) := by
  have hmem : key ∈ q.spots := (h.registry.spot_iff key).mpr ⟨s, hs, hheld⟩
  exact promoting (managed_sound.freeSpot q key s h hs)
    (Slots.State.possible_surrender.mpr hmem) rfl (h.slots_freeSpot hs) now

theorem visit (h : Sound cfg q) {key : Key} (hs : q.sessions.get? key = some s) (now : Time)
    (promoteAt : Key → Time) :
    Follows cfg (visitLabels now (q, key, s)) (visitPromotions now promoteAt (q, key, s)) q
      (q.visit now (promoteAt key) key s).1 := by
  have hrec : Sound cfg (q.recomputeAt s now) := managed_sound.recomputeAt h s now
  unfold visitLabels visitPromotions
  rcases visit_cases q now (promoteAt key) key s with
    ⟨hsur, heq⟩ | ⟨hsur, hspot, hwait, hin, heq⟩ | ⟨hsur, hlive, heq⟩
  · rw [heq, if_pos hsur, if_pos hsur]
    have hheld : ((q.recomputeAt s now).objs s).spotHeld = true := by
      rw [recomputeAt, Heap.modify_self]
      exact (Bool.and_eq_true_iff.mp hsur).1
    have hfree := Follows.freeSpot hrec hs hheld (promoteAt key)
    rw [Follows, slots_recomputeAt] at hfree
    exact hfree
  · rw [heq, hsur, if_neg Bool.false_ne_true, if_neg Bool.false_ne_true,
      if_pos ⟨hspot, hwait, hin⟩]
    have hforget := slots_forget (q.recomputeAt s now) key
    rw [slots_recomputeAt] at hforget
    exact quiet rfl rfl hforget
  · have hnot : ¬ ((q.objs s).spotHeld = false ∧ (q.objs s).waiting = 0 ∧
        (q.objs s).inflight = 0) := by
      rintro ⟨hspot, hwait, hin⟩
      rcases hlive with hlive | hlive | hlive
      · exact absurd hlive (hspot ▸ Bool.false_ne_true)
      · exact hlive hwait
      · exact hlive hin
    rw [heq, hsur, if_neg Bool.false_ne_true, if_neg Bool.false_ne_true, if_neg hnot]
    exact same (slots_recomputeAt q s now)

theorem tickLoop (now : Time) (promoteAt : Key → Time) (rest : List (Key × SessionRef))
    (q : EndpointQueue) (h : ∀ v ∈ visitsOf now promoteAt q rest,
      Sound cfg v.1 ∧ v.1.sessions.get? v.2.1 = some v.2.2) :
    Follows cfg ((visitsOf now promoteAt q rest).flatMap (visitLabels now))
      ((visitsOf now promoteAt q rest).flatMap (visitPromotions now promoteAt)) q
      (tickLoop now promoteAt q rest).1 := by
  induction rest generalizing q with
  | nil => exact same rfl
  | cons p rest ih =>
      obtain ⟨key, s⟩ := p
      obtain ⟨hsound, hs⟩ := h (q, key, s) List.mem_cons_self
      exact (visit hsound hs now promoteAt).trans
        (ih _ fun v hv => h v (List.mem_cons_of_mem _ hv))

/-- Every operation of the queue is the run of the scheduler that `labelsOf` gives. -/
theorem step (h : Sound cfg q) {op : QueueOp} (hop : q.step op = some q') :
    Follows cfg (q.labelsOf op) (q.promotionsOf op) q q' := by
  cases op with
  | admitQueued r path sessionAt queuedAt promoteAt =>
      obtain rfl := Option.some.inj hop
      have hnew : (q.entries.next, r.key) ∉ q.slots.waiting ∧
          (q.entries.next, r.key) ∉ q.slots.running := by
        constructor
        · intro hmem
          obtain ⟨e, he, heq⟩ := List.mem_map.mp hmem
          have hlt := (h.accounts.queue_done e he).1
          exact absurd (congrArg Prod.fst heq) (Nat.ne_of_lt hlt)
        · intro hmem
          obtain ⟨e, he, heq⟩ := List.mem_map.mp hmem
          have hlt := (h.accounts.running_done e he).1
          exact absurd (congrArg Prod.fst heq) (Nat.ne_of_lt hlt)
      exact promoting (h.append r path sessionAt queuedAt)
        (Slots.State.possible_submit.mpr hnew) rfl (h.slots_append r path sessionAt queuedAt)
        promoteAt
  | abandon e =>
      obtain ⟨he, hq'⟩ := Option.ite_none_right_eq_some.mp hop
      obtain rfl := Option.some.inj hq'
      exact quiet (Slots.State.possible_cancel.mpr (List.mem_map_of_mem he)) rfl
        (h.slots_abandon he)
  | release e now promoteAt =>
      obtain ⟨he, hq'⟩ := Option.ite_none_right_eq_some.mp hop
      obtain rfl := Option.some.inj hq'
      exact promoting (h.finish he now)
        (Slots.State.possible_finish.mpr (List.mem_map_of_mem he)) rfl (slots_finish q e now)
        promoteAt
  | releaseSession client sessionId promoteAt =>
      obtain rfl := Option.some.inj hop
      rcases releaseSession_cases q client sessionId promoteAt with ⟨s, hs, hheld, heq⟩ | ⟨hno, heq⟩
      · rw [heq, promotionsOf_releaseSession_of_held hs hheld]
        simp only [labelsOf, hs, hheld, if_true]
        exact Follows.freeSpot h hs hheld promoteAt
      · rw [heq, promotionsOf_releaseSession_of_not_held hno]
        have hlabels : q.labelsOf (.releaseSession client sessionId promoteAt) = [] := by
          cases hs : q.sessions.get? (client, sessionId) with
          | none => simp only [labelsOf, hs]
          | some s => simp [labelsOf, hs, hno s hs]
        rw [hlabels]
        exact same rfl
  | tick now promoteAt =>
      obtain rfl := Option.some.inj hop
      exact tickLoop now promoteAt q.sessions.entries q (managed_sound.visits h now promoteAt)
  | setReady ready =>
      obtain rfl := Option.some.inj hop
      exact quiet rfl rfl rfl
  | tryPromote now =>
      obtain rfl := Option.some.inj hop
      exact promoting h rfl rfl rfl now
  | setClientStatus s status detail at' =>
      obtain ⟨-, hq'⟩ := Option.ite_none_right_eq_some.mp hop
      obtain rfl := Option.some.inj hq'
      exact same (slots_modify (f := Session.reported status detail at') (fun _ => rfl)
        (fun _ => rfl) rfl rfl rfl rfl rfl rfl rfl)
  | setSharedSpotKey s key =>
      obtain ⟨-, hq'⟩ := Option.ite_none_right_eq_some.mp hop
      obtain rfl := Option.some.inj hq'
      by_cases hs : q.sessions.get? (q.objs s).key = some s
      · simp only [labelsOf, hs, if_true]
        exact quiet rfl rfl (h.slots_setSharedSpotKey hs key)
      · simp only [labelsOf, hs, if_false]
        exact same (h.slots_setSharedSpotKey_stale hs key)

end Follows

/-! ### Runs -/

/-- What a run of queue operations is for the scheduler. -/
def runLabels (q : EndpointQueue) (ops : List QueueOp) : List (Slots.Label Key SlotJob) :=
  Simulation.trace EndpointQueue.step labelsOf q ops

/-- The promotions of a run, in order, each with the state it is made in. -/
def runPromotions (q : EndpointQueue) (ops : List QueueOp) : List (EndpointQueue × EntryRef) :=
  Simulation.trace EndpointQueue.step promotionsOf q ops

theorem Sound.runFollows (h : Sound cfg q) {ops : List QueueOp}
    (hrun : exec EndpointQueue.step q ops = some q') :
    Follows cfg (q.runLabels ops) (q.runPromotions ops) q q' :=
  ⟨Simulation.exec_simulates (fun _ _ _ hs hop => Sound.step hs hop)
      (fun _ _ _ hs hop => (Follows.step hs hop).1) h hrun,
    Simulation.trace_simulates (fun _ _ _ hs hop => Sound.step hs hop)
      (fun _ _ _ hs hop => (Follows.step hs hop).1) (fun _ _ _ hs hop => (Follows.step hs hop).2)
      h hrun⟩

/-- **The queue is a scheduler of owned slots.** Every run of queue operations from a new queue is
a run of the scheduler from its initial state: the labels of the operations, one after the other,
are all possible, they lead to the scheduler the queue then is, and they start exactly the jobs
of the entries the queue promotes, in the same order and in the same states. -/
theorem queue_refines_slots {ops : List QueueOp}
    (hrun : exec EndpointQueue.step (EndpointQueue.init cfg) ops = some q) :
    exec (Slots.State.step cfg.limits Prod.snd) Slots.State.init
        ((EndpointQueue.init cfg).runLabels ops) = some q.slots ∧
      Simulation.trace (Slots.State.step cfg.limits Prod.snd)
          (Slots.State.startsOf cfg.limits Prod.snd) Slots.State.init
          ((EndpointQueue.init cfg).runLabels ops) =
        ((EndpointQueue.init cfg).runPromotions ops).map asStart :=
  (Sound.init cfg).runFollows hrun

/-- The scheduler of `threeRequests`: the second request of session `a` runs on its slot, the
request of session `b` waits. -/
theorem queue_refines_slots_threeRequests :
    ∃ q, exec EndpointQueue.step (EndpointQueue.init oneSpot) threeRequests = some q ∧
      q.slots.waiting = [(2, ("unknown", "b"))] ∧ q.slots.slots = [("unknown", "a")] ∧
      exec (Slots.State.step oneSpot.limits Prod.snd) Slots.State.init
        ((EndpointQueue.init oneSpot).runLabels threeRequests) = some q.slots := by
  have hview : (exec EndpointQueue.step (EndpointQueue.init oneSpot) threeRequests).map
      (fun q => (q.slots.waiting, q.slots.slots)) =
      some ([(2, ("unknown", "b"))], [("unknown", "a")]) := by decide +kernel
  obtain ⟨q, hexec, hq⟩ := Option.map_eq_some_iff.mp hview
  obtain ⟨hwaiting, hslots⟩ := Prod.mk.inj hq
  exact ⟨q, hexec, hwaiting, hslots, (queue_refines_slots hexec).1⟩

/-! ### How long a spot can go to others -/

/-- `I` is kept by every part any operation is made of. -/
structure Kept (I : EndpointQueue → Prop) : Prop extends Managed I where
  append : ∀ q r path sessionAt queuedAt, I q →
    I ((q.prepare r path sessionAt queuedAt).2.append (q.prepare r path sessionAt queuedAt).1)
  abandon : ∀ q e, I q → e ∈ q.queue → I (q.abandon e)
  finish : ∀ q e now, I q → e ∈ q.running → I (q.finish e now)

namespace Kept

variable {I : EndpointQueue → Prop}

theorem step (hI : Kept I) (h : I q) {op : QueueOp} (hop : q.step op = some q') : I q' := by
  cases op with
  | admitQueued r path sessionAt queuedAt promoteAt =>
      obtain rfl := Option.some.inj hop
      exact hI.toManaged.tryPromote (hI.append q r path sessionAt queuedAt h) promoteAt
  | abandon e =>
      obtain ⟨he, hq'⟩ := Option.ite_none_right_eq_some.mp hop
      obtain rfl := Option.some.inj hq'
      exact hI.abandon q e h he
  | release e now promoteAt =>
      obtain ⟨he, hq'⟩ := Option.ite_none_right_eq_some.mp hop
      obtain rfl := Option.some.inj hq'
      exact hI.toManaged.tryPromote (hI.finish q e now h he) promoteAt
  | _ => exact hI.toManaged.step h rfl hop

theorem promotionsOf (hI : Kept I) (h : I q) {op : QueueOp} (hop : q.step op = some q') :
    ∀ p ∈ q.promotionsOf op, I p.1 ∧ Selected p.1 p.2 := by
  have hinduct : ∀ {q₀ : EndpointQueue} {now : Time}, I q₀ →
      ∀ p ∈ q₀.promotions now, I p.1 ∧ Selected p.1 p.2 := fun {_ now} h₀ =>
    promotions_induction (fun q e hq hsel => hI.promote q e now hq hsel) h₀
  cases op with
  | admitQueued r path sessionAt queuedAt promoteAt =>
      exact hinduct (hI.append q r path sessionAt queuedAt h)
  | abandon e => simp [EndpointQueue.promotionsOf]
  | release e now promoteAt =>
      obtain ⟨he, -⟩ := Option.ite_none_right_eq_some.mp hop
      exact hinduct (hI.finish q e now h he)
  | _ => exact hI.toManaged.promotionsOf h rfl

theorem run (hI : Kept I) (h : I q) {ops : List QueueOp}
    (hrun : exec EndpointQueue.step q ops = some q') :
    I q' ∧ ∀ p ∈ q.runPromotions ops, I p.1 ∧ Selected p.1 p.2 := by
  induction ops generalizing q with
  | nil =>
      obtain rfl := Option.some.inj hrun
      exact ⟨h, fun p hp => absurd hp List.not_mem_nil⟩
  | cons op ops ih =>
      obtain ⟨q₁, hop, hrest⟩ := Option.bind_eq_some_iff.mp hrun
      obtain ⟨hend, hall⟩ := ih (hI.step h hop) hrest
      refine ⟨hend, fun p hp => ?_⟩
      rw [runPromotions, Simulation.trace_cons hop] at hp
      rcases List.mem_append.mp hp with hp | hp
      · exact hI.promotionsOf h hop p hp
      · exact hall p hp

end Kept

/-- The entries below `n` have the keys `keys` gives. -/
structure Labelled (cfg : QueueConfig) (n : Nat) (keys : EntryRef → Key) (q : EndpointQueue) :
    Prop where
  sound : Sound cfg q
  next_le : n ≤ q.entries.next
  keyOf_eq : ∀ e < n, q.keyOf e = keys e

variable {n : Nat} {keys : EntryRef → Key}

theorem Labelled.congr (h : Labelled cfg n keys q) (hsound : Sound cfg q')
    (hnext : q'.entries.next = q.entries.next) (hkey : ∀ e, q'.keyOf e = q.keyOf e) :
    Labelled cfg n keys q' :=
  ⟨hsound, hnext ▸ h.next_le, fun e he => (hkey e).trans (h.keyOf_eq e he)⟩

/-- The key of an entry never changes. -/
theorem kept_labelled : Kept (Labelled cfg n keys) where
  promote := fun q e now h hsel => h.congr (managed_sound.promote q e now h.sound hsel)
    (by rw [promote_entries]; rfl) (promote_keyOf q now e)
  freeSpot := fun q key s h hs => h.congr (managed_sound.freeSpot q key s h.sound hs) rfl
    (keyOf_modify (f := Session.spotless) (fun _ => rfl) rfl rfl)
  forget := fun q key s h hs hdead =>
    h.congr (managed_sound.forget q key s h.sound hs hdead) rfl fun _ => rfl
  cosmetic := fun q s f h hf => h.congr (managed_sound.cosmetic q s f h.sound hf) rfl
    (keyOf_modify hf.key rfl rfl)
  setReady := fun q ready h => h.congr (managed_sound.setReady q ready h.sound) rfl fun _ => rfl
  append := by
    intro q r path sessionAt queuedAt h
    have hkey := fun e he => prepare_keyOf (e := e) h.sound.accounts r path sessionAt queuedAt he
    obtain ⟨-, hnext, -⟩ := prepare_frame q r path sessionAt queuedAt
    refine ⟨h.sound.append r path sessionAt queuedAt, ?_, fun e he => ?_⟩
    · change n ≤ (q.prepare r path sessionAt queuedAt).2.entries.next
      rw [hnext]
      exact Nat.le_succ_of_le h.next_le
    · refine Eq.trans ?_ ((hkey e (Nat.lt_of_lt_of_le he h.next_le)).trans (h.keyOf_eq e he))
      exact append_keyOf _ _ e
  abandon := by
    intro q e h he
    have hdone := (h.sound.accounts.queue_done e he).2
    have hentries : (q.abandon e).entries = q.entries := by simp [EndpointQueue.abandon, hdone]
    exact h.congr (h.sound.abandon he) (by rw [hentries])
      (keyOf_modify (f := Session.unqueued) (fun _ => rfl) hentries (abandon_objs hdone))
  finish := fun q e now h he => h.congr (h.sound.finish he now) rfl
    (keyOf_modify (f := Session.finished now) (fun _ => rfl) rfl (finish_objs q e now))

/-- The promotion takes a spot for another session than that of `a`, which waits for one. -/
def overtakes (a : EntryRef) (p : EndpointQueue × EntryRef) : Bool :=
  decide (a ∈ p.1.queue) && decide (p.2 ≠ a) &&
    (p.1.spotless (p.1.sessionOf a) && p.1.acquires p.2)

theorem overtakes_iff {a : EntryRef} {p : EndpointQueue × EntryRef} : overtakes a p = true ↔
    a ∈ p.1.queue ∧ p.2 ≠ a ∧
      p.1.spotless (p.1.sessionOf a) = true ∧ p.1.acquires p.2 = true := by
  simp only [overtakes, Bool.and_eq_true, decide_eq_true_eq, and_assoc]

/-- The scheduler sees the same overtaking. -/
theorem Labelled.overtakes_asStart {p : EndpointQueue × EntryRef} (h : Labelled cfg n keys p.1)
    (hsel : Selected p.1 p.2) {a : EntryRef} (ha : a < n) :
    Slots.State.overtakes Prod.snd (a, keys a) (asStart p) = overtakes a p := by
  have hjob : p.1.job a = (a, keys a) := congrArg (Prod.mk a) (h.keyOf_eq a ha)
  have hspot : ∀ e ∈ p.1.queue,
      p.1.slots.slotless (p.1.job e).2 = p.1.spotless (p.1.sessionOf e) := fun e he =>
    congrArg Option.isNone
      (slotOf_eq_spotKey (h.sound.registry.registered_of_mem_queue h.sound.accounts he))
  rw [Bool.eq_iff_iff, Slots.State.overtakes_iff, overtakes_iff, ← hjob]
  change p.1.job a ∈ p.1.queue.map p.1.job ∧ p.1.job p.2 ≠ p.1.job a ∧
    p.1.slots.slotless (p.1.job a).2 = true ∧ p.1.slots.slotless (p.1.job p.2).2 = true ↔ _
  rw [List.mem_map_of_injective p.1.job_injective, p.1.job_injective.ne_iff, hspot _ hsel.mem]
  refine and_congr_right fun hwaits => ?_
  rw [hspot a hwaits]
  rfl

/-- An operation submits new entries only. -/
theorem submit_not_mem_labelsOf {a : SlotJob} (ha : a.1 < q.entries.next) (op : QueueOp) :
    Slots.Label.submit a ∉ q.labelsOf op := by
  intro hmem
  cases op with
  | admitQueued r path sessionAt queuedAt promoteAt =>
      have heq : a = (q.entries.next, r.key) := by
        simpa [labelsOf] using hmem
      exact absurd (congrArg Prod.fst heq) (Nat.ne_of_lt ha)
  | tick now promoteAt =>
      obtain ⟨v, -, hv⟩ := List.mem_flatMap.mp hmem
      unfold visitLabels at hv
      dsimp only at hv
      split at hv
      · simp at hv
      · split at hv <;> simp at hv
  | releaseSession client sessionId promoteAt =>
      unfold labelsOf at hmem
      dsimp only at hmem
      split at hmem
      · split at hmem <;> simp at hmem
      · simp at hmem
  | setSharedSpotKey s key =>
      unfold labelsOf at hmem
      dsimp only at hmem
      split at hmem <;> simp at hmem
  | abandon e => simp [labelsOf] at hmem
  | release e now promoteAt => simp [labelsOf] at hmem
  | setReady ready => simp [labelsOf] at hmem
  | tryPromote now => simp [labelsOf] at hmem
  | setClientStatus s status detail at' => simp [labelsOf] at hmem

theorem submit_not_mem_runLabels {a : SlotJob} (ha : a.1 < n) (h : Labelled cfg n keys q)
    {ops : List QueueOp} (hrun : exec EndpointQueue.step q ops = some q') :
    Slots.Label.submit a ∉ q.runLabels ops := by
  induction ops generalizing q with
  | nil => exact List.not_mem_nil
  | cons op ops ih =>
      obtain ⟨q₁, hop, hrest⟩ := Option.bind_eq_some_iff.mp hrun
      rw [runLabels, Simulation.trace_cons hop, List.mem_append]
      rintro (hmem | hmem)
      · exact submit_not_mem_labelsOf (Nat.lt_of_lt_of_le ha h.next_le) op hmem
      · exact ih (kept_labelled.step h hop) hrest hmem

/-- **Bounded overtaking.** Let an entry wait in a reachable queue. Whatever happens then, among
all promotions made while it waits without a usable spot, those that take a spot for another
session are at most as many as the entries that stood ahead of it. -/
theorem overtakes_le_ahead {ops₁ ops₂ : List QueueOp} {q₁ : EndpointQueue} {a : EntryRef}
    (h₁ : exec EndpointQueue.step (EndpointQueue.init cfg) ops₁ = some q₁)
    (h₂ : exec EndpointQueue.step q₁ ops₂ = some q) (ha : a ∈ q₁.queue) :
    (q₁.runPromotions ops₂).countP (overtakes a) ≤ q₁.queue.idxOf a := by
  have hsound : Sound cfg q₁ := sound_of_run (run_any_of_exec h₁)
  have hlt : a < q₁.entries.next := (hsound.accounts.queue_done a ha).1
  have hlabelled : Labelled cfg q₁.entries.next q₁.keyOf q₁ :=
    ⟨hsound, Nat.le_refl _, fun _ _ => rfl⟩
  obtain ⟨hexec, htrace⟩ := hsound.runFollows h₂
  have hall := (kept_labelled.run hlabelled h₂).2
  have hcount : (q₁.runPromotions ops₂).countP (overtakes a) =
      ((q₁.runPromotions ops₂).map asStart).countP
        (Slots.State.overtakes Prod.snd (q₁.job a)) := by
    rw [List.countP_map]
    refine List.countP_congr fun p hp => ?_
    obtain ⟨hp₁, hsel⟩ := hall p hp
    rw [Function.comp_apply, job, hp₁.overtakes_asStart hsel hlt]
  have honce : q₁.slots.Once := by
    change (q₁.queue.map q₁.job ++ q₁.running.map q₁.job).Nodup
    rw [← List.map_append]
    refine List.Nodup.map q₁.job_injective (List.nodup_append.mpr
      ⟨hsound.accounts.queue_nodup, hsound.accounts.running_nodup, ?_⟩)
    intro e he e' he' heq
    exact hsound.accounts.not_mem_running he (heq ▸ he')
  have hahead : q₁.slots.ahead (q₁.job a) = q₁.queue.idxOf a := by
    have hmem : q₁.job a ∈ q₁.slots.waiting := List.mem_map_of_mem ha
    rw [Slots.State.ahead, if_pos hmem]
    exact Slots.State.idxOf_map q₁.job_injective q₁.queue a
  rw [hcount, ← htrace, ← hahead]
  exact Slots.State.overtakes_le honce (submit_not_mem_runLabels hlt hlabelled h₂) hexec

/-- Session `a` holds the only spot; the requests of `b` and `c` wait behind it. -/
def twoWait : List QueueOp :=
  [.setReady true, .admitQueued (requester "a") "/x" 1 1 1,
    .admitQueued (requester "b") "/y" 2 2 2, .admitQueued (requester "c") "/z" 3 3 3]

/-- Session `a` ends and gives up its spot, which goes to `b`. -/
def spotMovesOn : List QueueOp :=
  [.release 0 4 4, .releaseSession "unknown" "a" 5]

theorem overtakes_le_ahead_twoWait :
    ∃ q₁ q, exec EndpointQueue.step (EndpointQueue.init oneSpot) twoWait = some q₁ ∧
      exec EndpointQueue.step q₁ spotMovesOn = some q ∧ q₁.queue = [1, 2] ∧
      (q₁.runPromotions spotMovesOn).countP (overtakes 2) = 1 ∧
      (q₁.runPromotions spotMovesOn).countP (overtakes 2) ≤ q₁.queue.idxOf 2 := by
  have hview : (exec EndpointQueue.step (EndpointQueue.init oneSpot) twoWait).map
      (fun q => (q.queue, (q.runPromotions spotMovesOn).countP (overtakes 2),
        (exec EndpointQueue.step q spotMovesOn).isSome)) = some ([1, 2], 1, true) := by
    decide +kernel
  obtain ⟨q₁, hexec, hq⟩ := Option.map_eq_some_iff.mp hview
  obtain ⟨hqueue, hq⟩ := Prod.mk.inj hq
  obtain ⟨hcount, hsome⟩ := Prod.mk.inj hq
  obtain ⟨q, hmove⟩ := Option.isSome_iff_exists.mp hsome
  have hmem : 2 ∈ q₁.queue := by simp [hqueue]
  exact ⟨q₁, q, hexec, hmove, hqueue, hcount, overtakes_le_ahead hexec hmove hmem⟩

end EndpointQueue

end Relay
