import Mathlib.Algebra.BigOperators.Ring.Finset
import Relay.Library.Runs
import Relay.Queue.Registry

/-!
# Relay.Queue.Operations

**Runs of atomic queue operations.** `QueueOp` lists the operations other code
performs on an `EndpointQueue`, each as one step; `step` executes one. An entry is
abandoned only while it waits and released only while it is in flight, which is
what the callers guarantee.

`Sound` bundles the accounting, the registry and the atomic bound; every operation
keeps it, and `representation_invariant` reads it off in the terms of the source.
-/

namespace Relay

open Runs

/-- An operation on an `EndpointQueue`, with its arguments and clock readings. -/
inductive QueueOp
  /-- `get_or_create_session`, the construction of a `QueueEntry`, and `enqueue`. -/
  | admitQueued (r : Requester) (path : String) (sessionAt queuedAt promoteAt : Time)
  | abandon (e : EntryRef)
  | release (e : EntryRef) (now promoteAt : Time)
  | releaseSession (client sessionId : String) (promoteAt : Time)
  | tick (now : Time) (promoteAt : Key → Time)
  | setReady (ready : Bool)
  | tryPromote (now : Time)
  | setClientStatus (s : SessionRef) (status : Option Status) (detail : String) (at' : Time)
  | setSharedSpotKey (s : SessionRef) (key : Option Key)

/-- Whether the operation is one of the queue manager, the status poller or the monitor.
Entries are admitted, abandoned and released by admissions only. -/
def QueueOp.isManaged : QueueOp → Bool
  | .admitQueued .. | .abandon _ | .release .. => false
  | _ => true

namespace EndpointQueue

variable {q q' : EndpointQueue} {e : EntryRef} {now : Time}

/-- `get_or_create_session` and the construction of the entry: the entry, and the
queue before `enqueue`. -/
def prepare (q : EndpointQueue) (r : Requester) (path : String) (sessionAt queuedAt : Time) :
    EntryRef × EndpointQueue :=
  let created := q.getOrCreateSession r sessionAt
  created.2.newEntry created.1 path queuedAt

/-- An admission without suspension. -/
def admitQueued (q : EndpointQueue) (r : Requester) (path : String)
    (sessionAt queuedAt promoteAt : Time) : EndpointQueue :=
  let prepared := q.prepare r path sessionAt queuedAt
  prepared.2.enqueue prepared.1 promoteAt

/-- One operation; `none` when its caller could not perform it. -/
def step (q : EndpointQueue) : QueueOp → Option EndpointQueue
  | .admitQueued r path sessionAt queuedAt promoteAt =>
      some (q.admitQueued r path sessionAt queuedAt promoteAt)
  | .abandon e => if e ∈ q.queue then some (q.abandon e) else none
  | .release e now promoteAt => if e ∈ q.running then some (q.release e now promoteAt) else none
  | .releaseSession client sessionId promoteAt =>
      some (q.releaseSession client sessionId promoteAt).2
  | .tick now promoteAt => some (q.tick now promoteAt).1
  | .setReady ready => some { q with ready := ready }
  | .tryPromote now => some (q.tryPromote now)
  | .setClientStatus s status detail at' =>
      if s < q.objs.next then some (q.setClientStatus s status detail at') else none
  | .setSharedSpotKey s key =>
      if s < q.objs.next then some (q.setSharedSpotKey s key) else none

/-! ### The managed operations

The queue manager, the status poller and the monitor neither admit nor release entries.
What their operations are made of is listed in `Managed`: a predicate these parts keep is
kept by the operations. -/

/-- `I` is kept by every part a managed operation is made of. -/
structure Managed (I : EndpointQueue → Prop) : Prop where
  promote : ∀ q e now, I q → Selected q e → I (q.promote now e)
  freeSpot : ∀ q key s, I q → q.sessions.get? key = some s → I (q.freeSpot s key)
  forget : ∀ q key s, I q → q.sessions.get? key = some s → ¬ q.Live s →
    I { q with sessions := q.sessions.erase key }
  cosmetic : ∀ q s f, I q → Session.Cosmetic f → I { q with objs := q.objs.modify s f }
  setReady : ∀ q ready, I q → I { q with ready := ready }

namespace Managed

variable {I J : EndpointQueue → Prop}

theorem and (hI : Managed I) (hJ : Managed J) : Managed (fun q => I q ∧ J q) where
  promote := fun q e now h hsel => ⟨hI.promote q e now h.1 hsel, hJ.promote q e now h.2 hsel⟩
  freeSpot := fun q key s h hs => ⟨hI.freeSpot q key s h.1 hs, hJ.freeSpot q key s h.2 hs⟩
  forget := fun q key s h hs hdead =>
    ⟨hI.forget q key s h.1 hs hdead, hJ.forget q key s h.2 hs hdead⟩
  cosmetic := fun q s f h hf => ⟨hI.cosmetic q s f h.1 hf, hJ.cosmetic q s f h.2 hf⟩
  setReady := fun q ready h => ⟨hI.setReady q ready h.1, hJ.setReady q ready h.2⟩

theorem tryPromote (hI : Managed I) (h : I q) (now : Time) : I (q.tryPromote now) :=
  tryPromote_induction (fun q e hq hsel => hI.promote q e now hq hsel) h

theorem recomputeAt (hI : Managed I) (h : I q) (s : SessionRef) (now : Time) :
    I (q.recomputeAt s now) :=
  hI.cosmetic q s _ h (Session.cosmetic_recompute q.cfg now)

theorem releaseSpot (hI : Managed I) (h : I q) {key : Key} {s : SessionRef}
    (hs : q.sessions.get? key = some s) (now : Time) : I (q.releaseSpot s key now) :=
  hI.tryPromote (hI.freeSpot q key s h hs) now

theorem releaseSession (hI : Managed I) (h : I q) (client sessionId : String) (now : Time) :
    I (q.releaseSession client sessionId now).2 := by
  rcases releaseSession_cases q client sessionId now with ⟨s, hs, -, heq⟩ | ⟨-, heq⟩
  · rw [heq]
    exact hI.releaseSpot h hs now
  · rw [heq]
    exact h

theorem visit (hI : Managed I) (h : I q) {key : Key} {s : SessionRef}
    (hs : q.sessions.get? key = some s) (now promoteAt : Time) :
    I (q.visit now promoteAt key s).1 := by
  have hrec := hI.recomputeAt h s now
  rcases visit_cases q now promoteAt key s with
    ⟨-, heq⟩ | ⟨-, hspot, hwait, hin, heq⟩ | ⟨-, -, heq⟩
  · rw [heq]
    exact hI.releaseSpot hrec hs promoteAt
  · rw [heq]
    refine hI.forget _ key s hrec hs ?_
    have hobj : (q.recomputeAt s now).objs s = (q.objs s).recompute q.cfg now := by
      simp [EndpointQueue.recomputeAt]
    rw [Live, hobj]
    simp [Session.recompute, hspot, hwait, hin]
  · rw [heq]
    exact hrec

theorem tick (hI : Managed I) (h : I q) (now : Time) (promoteAt : Key → Time) :
    I (q.tick now promoteAt).1 :=
  tick_induction (P := fun _ _ _ => True)
    (fun _ key _ hq hs _ => hI.visit hq hs now (promoteAt key)) (fun _ _ => trivial) h

/-- In every state a `tick` visits a session, it finds it under its key. -/
theorem visits (hI : Managed I) (h : I q) (now : Time) (promoteAt : Key → Time) :
    ∀ v ∈ q.visits now promoteAt, I v.1 ∧ v.1.sessions.get? v.2.1 = some v.2.2 :=
  visits_induction (P := fun _ _ _ => True)
    (fun _ key _ hq hs _ => hI.visit hq hs now (promoteAt key)) (fun _ _ => trivial) h

/-- A managed operation keeps what its parts keep. -/
theorem step (hI : Managed I) (h : I q) {op : QueueOp} (hop : op.isManaged = true)
    (hstep : q.step op = some q') : I q' := by
  cases op with
  | admitQueued r path sessionAt queuedAt promoteAt => exact absurd hop Bool.false_ne_true
  | abandon e => exact absurd hop Bool.false_ne_true
  | release e now promoteAt => exact absurd hop Bool.false_ne_true
  | releaseSession client sessionId promoteAt =>
      obtain rfl := Option.some.inj hstep
      exact hI.releaseSession h client sessionId promoteAt
  | tick now promoteAt =>
      obtain rfl := Option.some.inj hstep
      exact hI.tick h now promoteAt
  | setReady ready =>
      obtain rfl := Option.some.inj hstep
      exact hI.setReady q ready h
  | tryPromote now =>
      obtain rfl := Option.some.inj hstep
      exact hI.tryPromote h now
  | setClientStatus s status detail at' =>
      obtain ⟨-, hq'⟩ := Option.ite_none_right_eq_some.mp hstep
      obtain rfl := Option.some.inj hq'
      exact hI.cosmetic q s _ h (Session.cosmetic_reported status detail at')
  | setSharedSpotKey s key =>
      obtain ⟨-, hq'⟩ := Option.ite_none_right_eq_some.mp hstep
      obtain rfl := Option.some.inj hq'
      exact hI.cosmetic q s _ h (Session.cosmetic_sharing key)

end Managed

/-! ### The session a request is filed under -/

/-- `get_or_create_session` returns a registered session with the requester's key. -/
theorem getOrCreateSession_registered (h : Registry q) (r : Requester) (now : Time) :
    (q.getOrCreateSession r now).2.Registered (q.getOrCreateSession r now).1 := by
  unfold getOrCreateSession
  cases hs : q.sessions.get? r.key with
  | none =>
      change (q.sessions.insert r.key q.objs.next).get?
        (q.objs.alloc (Session.new r now) q.objs.next).key = some q.objs.next
      rw [Heap.alloc_self]
      exact OrdDict.get?_insert_self _ _ _
  | some s =>
      change q.sessions.get? (q.objs.modify s (Session.revive r now) s).key = some s
      rw [Heap.modify_self]
      change q.sessions.get? (q.objs s).key = some s
      rw [h.key_of _ s hs, hs]

theorem getOrCreateSession_lt (h : Registry q) (r : Requester) (now : Time) :
    (q.getOrCreateSession r now).1 < (q.getOrCreateSession r now).2.objs.next :=
  (h.getOrCreateSession r now).alloc_lt _ _ (getOrCreateSession_registered h r now)

/-- The entry an admission prepares: it is new, waits nowhere yet and belongs to a
registered session. -/
theorem prepare_spec (hacc : Accounts q (fun _ => 0)) (hreg : Registry q) (r : Requester)
    (path : String) (sessionAt queuedAt : Time) :
    let prepared := q.prepare r path sessionAt queuedAt
    Accounts prepared.2 (fun _ => 0) ∧ Registry prepared.2 ∧
      prepared.1 < prepared.2.entries.next ∧ (prepared.2.entries prepared.1).done = false ∧
      prepared.1 ∉ prepared.2.queue ∧ prepared.2.Registered (prepared.2.sessionOf prepared.1) := by
  have hacc' := hacc.getOrCreateSession r sessionAt
  have hreg' := hreg.getOrCreateSession r sessionAt
  have hmine := getOrCreateSession_registered hreg r sessionAt
  have hlt := getOrCreateSession_lt hreg r sessionAt
  set created := q.getOrCreateSession r sessionAt
  have hentry : (created.2.newEntry created.1 path queuedAt).2.entries created.2.entries.next =
      { session := created.1, path := path, enqueuedAt := queuedAt } := Heap.alloc_self _ _
  refine ⟨hacc'.newEntry hlt path queuedAt, ?_, Nat.lt_succ_self _, ?_, ?_, ?_⟩
  · exact hreg'.congr rfl rfl rfl rfl (fun _ => ⟨rfl, rfl⟩) hreg'.live
  · exact congrArg QueueEntry.done hentry
  · intro hmem
    exact Nat.lt_irrefl _ (hacc'.queue_done _ hmem).1
  · change created.2.Registered
      ((created.2.newEntry created.1 path queuedAt).2.entries created.2.entries.next).session
    rw [hentry]
    exact hmine

/-! ### Every operation keeps the invariant -/

/-- At most one request is in flight in atomic mode. -/
def AtomicBound (q : EndpointQueue) : Prop := q.cfg.atomicRequests = true → q.inflightTotal ≤ 1

theorem AtomicBound.promote (helig : q.eligible e = true) (now : Time) :
    AtomicBound (q.promote now e) := by
  intro hatomic
  rw [promote_cfg] at hatomic
  rw [promote_inflightTotal]
  by_contra hlt
  have hpos : 0 < q.inflightTotal := by omega
  simp [eligible, hatomic, hpos] at helig

theorem AtomicBound.finish (h : AtomicBound q) (hpos : 0 < q.inflightTotal) (e : EntryRef)
    (now : Time) : AtomicBound (q.finish e now) := by
  intro hatomic
  have hle : q.inflightTotal ≤ 1 := h hatomic
  have hpred : max 0 (q.inflightTotal - 1) ≤ 1 := max_le (by omega) (by omega)
  unfold EndpointQueue.finish
  dsimp only
  split
  · exact hpred
  · exact hle

theorem AtomicBound.abandon (h : AtomicBound q) (e : EntryRef) : AtomicBound (q.abandon e) := by
  unfold EndpointQueue.abandon
  split
  · exact h
  · exact h

section Managed

variable {cfg : QueueConfig} {held : SessionRef → Nat}

theorem managed_atomicBound : Managed AtomicBound where
  promote := fun _ _ now _ hsel => AtomicBound.promote hsel.eligible now
  freeSpot := fun _ _ _ h _ => h
  forget := fun _ _ _ h _ _ => h
  cosmetic := fun _ _ _ h _ => h
  setReady := fun _ _ h => h

theorem managed_cfg : Managed (fun q => q.cfg = cfg) where
  promote := fun q e now h _ => (promote_cfg q now e).trans h
  freeSpot := fun _ _ _ h _ => h
  forget := fun _ _ _ h _ _ => h
  cosmetic := fun _ _ _ h _ => h
  setReady := fun _ _ h => h

theorem managed_accounts : Managed (fun q => Accounts q held) where
  promote := fun _ _ now h hsel => h.promote hsel.mem now
  freeSpot := fun _ key s h _ => h.freeSpot s key
  forget := fun _ _ _ h _ _ => h.congr rfl rfl rfl rfl rfl fun _ => ⟨rfl, rfl⟩
  cosmetic := fun _ _ _ h hf => h.cosmetic hf rfl rfl rfl rfl rfl
  setReady := fun _ _ h => h.congr rfl rfl rfl rfl rfl fun _ => ⟨rfl, rfl⟩

/-- The registry needs the accounting: a promoted entry's session is registered because
it is waiting. -/
theorem managed_registry (held : SessionRef → Nat) :
    Managed (fun q => Accounts q held ∧ Registry q) where
  promote := fun _ _ now h hsel => ⟨h.1.promote hsel.mem now,
    h.2.promote (h.2.registered_of_mem_queue h.1 hsel.mem) hsel.eligible now⟩
  freeSpot := fun _ key s h hs => ⟨h.1.freeSpot s key, h.2.freeSpot hs⟩
  forget := fun q key s h hs hdead =>
    ⟨managed_accounts.forget q key s h.1 hs hdead, h.2.forget hs hdead⟩
  cosmetic := fun q s f h hf =>
    ⟨managed_accounts.cosmetic q s f h.1 hf, h.2.cosmetic hf rfl rfl rfl rfl⟩
  setReady := fun q ready h => ⟨managed_accounts.setReady q ready h.1,
    h.2.congr rfl rfl rfl rfl (fun _ => ⟨rfl, rfl⟩) h.2.live⟩

end Managed

/-- The invariant of a queue on which operations run one after the other. -/
structure Sound (cfg : QueueConfig) (q : EndpointQueue) : Prop where
  cfg_eq : q.cfg = cfg
  accounts : Accounts q (fun _ => 0)
  registry : Registry q
  atomic : AtomicBound q

theorem Sound.init (cfg : QueueConfig) : Sound cfg (EndpointQueue.init cfg) where
  cfg_eq := rfl
  accounts := .init cfg
  registry := .init cfg
  atomic := fun _ => Int.zero_le_ofNat 1

variable {cfg : QueueConfig}

theorem sound_iff : Sound cfg q ↔
    (q.cfg = cfg ∧ Accounts q (fun _ => 0) ∧ Registry q) ∧ AtomicBound q :=
  ⟨fun h => ⟨⟨h.cfg_eq, h.accounts, h.registry⟩, h.atomic⟩,
    fun h => ⟨h.1.1, h.1.2.1, h.1.2.2, h.2⟩⟩

theorem managed_sound : Managed (Sound cfg) := by
  have hcfg : Managed (fun q => q.cfg = cfg) := managed_cfg
  have h := hcfg.and (managed_registry (fun _ => 0))
  have heq : Sound cfg = fun q => (q.cfg = cfg ∧ Accounts q (fun _ => 0) ∧ Registry q) ∧
      AtomicBound q := funext fun _ => propext sound_iff
  rw [heq]
  exact h.and managed_atomicBound

/-- The queue an admission hands to its promotion loop. -/
theorem Sound.append (h : Sound cfg q) (r : Requester) (path : String)
    (sessionAt queuedAt : Time) :
    Sound cfg ((q.prepare r path sessionAt queuedAt).2.append
      (q.prepare r path sessionAt queuedAt).1) := by
  obtain ⟨hacc, hreg, hlt, hdone, hnew, hmine⟩ :=
    prepare_spec h.accounts h.registry r path sessionAt queuedAt
  have hsame : (q.prepare r path sessionAt queuedAt).2.cfg = q.cfg ∧
      (q.prepare r path sessionAt queuedAt).2.inflightTotal = q.inflightTotal := by
    unfold prepare getOrCreateSession
    split <;> exact ⟨rfl, rfl⟩
  exact
    { cfg_eq := hsame.1.trans h.cfg_eq
      accounts := hacc.append hlt hdone hnew
      registry := hreg.append hmine
      atomic := fun hatomic => le_of_eq_of_le hsame.2 (h.atomic (hsame.1 ▸ hatomic)) }

theorem Sound.abandon (h : Sound cfg q) (he : e ∈ q.queue) : Sound cfg (q.abandon e) where
  cfg_eq := by
    rw [← h.cfg_eq]
    simp [EndpointQueue.abandon, (h.accounts.queue_done e he).2]
  accounts := h.accounts.abandon he
  registry := h.registry.abandon (h.registry.registered_of_mem_queue h.accounts he)
  atomic := h.atomic.abandon e

/-- The queue a release hands to its promotion loop. -/
theorem Sound.finish (h : Sound cfg q) (he : e ∈ q.running) (now : Time) :
    Sound cfg (q.finish e now) where
  cfg_eq := h.cfg_eq
  accounts := h.accounts.finish he now
  registry := h.registry.finish (h.registry.registered_of_mem_running h.accounts he) now
  atomic := h.atomic.finish (h.accounts.total_pos he) e now

/-- Every operation keeps the invariant. -/
theorem Sound.step (h : Sound cfg q) {op : QueueOp} (hop : q.step op = some q') :
    Sound cfg q' := by
  cases op with
  | admitQueued r path sessionAt queuedAt promoteAt =>
      obtain rfl := Option.some.inj hop
      exact managed_sound.tryPromote (h.append r path sessionAt queuedAt) promoteAt
  | abandon e =>
      obtain ⟨he, hq'⟩ := Option.ite_none_right_eq_some.mp hop
      obtain rfl := Option.some.inj hq'
      exact h.abandon he
  | release e now promoteAt =>
      obtain ⟨he, hq'⟩ := Option.ite_none_right_eq_some.mp hop
      obtain rfl := Option.some.inj hq'
      exact managed_sound.tryPromote (h.finish he now) promoteAt
  | _ => exact managed_sound.step h rfl hop

/-- The invariant holds after every run from a new queue. -/
theorem sound_of_run {ops : List QueueOp} {ok : EndpointQueue → QueueOp → Prop}
    (h : Run (Steps step ok) (EndpointQueue.init cfg) ops q) : Sound cfg q :=
  h.invariant (fun _ _ _ hs hstep => hs.step hstep.1) (Sound.init cfg)

/-! ### The invariant in the terms of the source -/

/-- The table stores each session object under one key only. -/
theorem Registry.values_nodup (h : Registry q) : q.sessions.values.Nodup := by
  refine List.Nodup.map_on ?_ (List.Nodup.of_map _ q.sessions.nodup)
  intro a ha b hb hab
  have hka := h.key_of a.1 a.2 (OrdDict.get?_eq_some_iff.mpr ha)
  have hkb := h.key_of b.1 b.2 (OrdDict.get?_eq_some_iff.mpr hb)
  rw [hab, hkb] at hka
  exact Prod.ext hka.symm hab

/-- The sessions of the table account for every request in flight. -/
theorem Sound.total_eq_sum (h : Sound cfg q) :
    q.inflightTotal = (q.sessions.values.map (fun s => (q.objs s).inflight)).sum := by
  have hcover : ∀ e ∈ q.running, q.sessionOf e ∈ q.sessions.values := fun e he =>
    OrdDict.mem_values_iff.mpr ⟨_, h.registry.registered_of_mem_running h.accounts he⟩
  have hsum := Counting.sum_countP_eq_length q.sessionOf h.registry.values_nodup hcover
  have hcounts : q.sessions.values.map (fun s => (q.objs s).inflight) =
      (q.sessions.values.map q.runningCount).map (fun n : Nat => (n : Int)) := by
    rw [List.map_map]
    refine List.map_congr_left fun s _ => ?_
    simpa using h.accounts.inflight_eq s
  rw [h.accounts.total_eq, hcounts, ← hsum]
  exact Nat.cast_list_sum _

/-- **The five records of a queue agree.** After every run of atomic operations the
keys of `spots` are those of the sessions that hold one, at most `max_spots`; every
entry that waits or runs belongs to the session object the table stores under its
key; the counters are the numbers of such entries; the total is the sum over the
sessions, and the clamps at zero change nothing; and atomic mode runs one request
at a time. -/
theorem representation_invariant {ops : List QueueOp}
    (h : Run (Steps step Any) (EndpointQueue.init cfg) ops q) :
    (∀ k, k ∈ q.spots ↔ ∃ s, q.sessions.get? k = some s ∧ (q.objs s).spotHeld = true) ∧
    q.spots.size ≤ cfg.maxSpots ∧
    (∀ e ∈ q.queue, (q.entries e).done = false ∧ q.Registered (q.sessionOf e)) ∧
    (∀ e ∈ q.running, q.Registered (q.sessionOf e)) ∧
    (∀ s, (q.objs s).waiting = q.waitingCount s ∧ (q.objs s).inflight = q.runningCount s) ∧
    q.inflightTotal = (q.sessions.values.map (fun s => (q.objs s).inflight)).sum ∧
    (∀ e ∈ q.queue, max 0 ((q.objs (q.sessionOf e)).waiting - 1) =
      (q.objs (q.sessionOf e)).waiting - 1) ∧
    (∀ e ∈ q.running, 0 < (q.objs (q.sessionOf e)).inflight ∧
      max 0 (q.inflightTotal - 1) = q.inflightTotal - 1) ∧
    (cfg.atomicRequests = true → q.inflightTotal ≤ 1) := by
  have hsound := sound_of_run h
  have hacc := hsound.accounts
  have hreg := hsound.registry
  refine ⟨hreg.spot_iff, ?_, ?_, ?_, ?_, hsound.total_eq_sum, ?_, ?_, ?_⟩
  · rw [← hsound.cfg_eq]
    exact hreg.spots_le
  · intro e he
    exact ⟨(hacc.queue_done e he).2, hreg.registered_of_mem_queue hacc he⟩
  · intro e he
    exact hreg.registered_of_mem_running hacc he
  · intro s
    exact ⟨hacc.waiting_eq s, by simpa using hacc.inflight_eq s⟩
  · intro e he
    have := hacc.waiting_pos he
    omega
  · intro e he
    have := hacc.total_pos he
    exact ⟨hacc.inflight_pos he, by omega⟩
  · rw [← hsound.cfg_eq]
    exact hsound.atomic

/-- One spot, requests of a session one after the other up to two at a time. -/
def oneSpot : QueueConfig := .ofArgs 1 2 300 600 false false

/-- A request of the unknown client's session `id`. -/
def requester (id : String) : Requester := ⟨"unknown", id, "api", "10.0.0.1", "curl"⟩

/-- Two requests of one session and one of another arrive at a ready endpoint, and
the first finishes. -/
def threeRequests : List QueueOp :=
  [.setReady true, .admitQueued (requester "a") "/x" 1 1 1, .admitQueued (requester "a") "/y" 2 2 2,
    .admitQueued (requester "b") "/z" 3 3 3, .release 0 4 4]

theorem representation_invariant_threeRequests :
    ∃ q, exec step (EndpointQueue.init oneSpot) threeRequests = some q ∧
      q.running = [1] ∧ q.queue = [2] ∧ q.spots.size ≤ oneSpot.maxSpots := by
  have hview : (exec step (EndpointQueue.init oneSpot) threeRequests).map
      (fun q => (q.running, q.queue)) = some ([1], [2]) := by decide +kernel
  obtain ⟨q, hexec, hq⟩ := Option.map_eq_some_iff.mp hview
  obtain ⟨hrunning, hqueue⟩ := Prod.mk.inj hq
  exact ⟨q, hexec, hrunning, hqueue, (representation_invariant (run_any_of_exec hexec)).2.1⟩

end EndpointQueue

end Relay
