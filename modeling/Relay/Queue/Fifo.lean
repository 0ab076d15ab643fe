import Relay.Queue.Operations

/-!
# Relay.Queue.Fifo

**FIFO without overtaking, and no idle capacity.** `PromotionRule` states when an
entry may run, in terms of the requests in flight, the spots and the per-session
cap; `eligible_iff` connects it to `_eligible`. `promotionsOf` lists the promotions
an operation makes, each with the state it is made in.

Entries are numbered in the order in which they are enqueued, so the order of the
waiting queue is the order of these numbers in every reachable state
(`Ordered.sorted`), whatever happens in between. That is the whole argument: a
promotion takes the first entry that may run, and what stands ahead of it may not.
-/

namespace Relay

open Runs

namespace EndpointQueue

variable {q q' : EndpointQueue} {e : EntryRef} {now : Time} {cfg : QueueConfig}

/-! ### The promotion rule -/

/-- The session has a usable spot: its own, or the shared one. -/
def Usable (q : EndpointQueue) (s : SessionRef) : Prop :=
  (q.objs s).key ∈ q.spots ∨ ∃ k, (q.objs s).sharedSpotKey = some k ∧ k ∈ q.spots

/-- A further request of the session stays within the per-session cap. -/
def BelowCap (q : EndpointQueue) (s : SessionRef) : Prop :=
  q.cfg.maxInflightPerSession < 0 ∨ (q.objs s).inflight < q.cfg.maxInflightPerSession

/-- The entry may run: in atomic mode nothing is in flight, and its session has a
usable spot and is below its cap, or else a spot is free. -/
def PromotionRule (q : EndpointQueue) (e : EntryRef) : Prop :=
  (q.cfg.atomicRequests = true → q.running = []) ∧
    ((q.Usable (q.sessionOf e) ∧ q.BelowCap (q.sessionOf e)) ∨
      (¬ q.Usable (q.sessionOf e) ∧ q.spots.size < q.cfg.maxSpots))

/-- No waiting entry may run. -/
def Exhausted (q : EndpointQueue) : Prop := ∀ e ∈ q.queue, ¬ q.PromotionRule e

theorem spotKey_isSome_iff (q : EndpointQueue) (s : SessionRef) :
    (q.spotKey (q.objs s)).isSome = true ↔ q.Usable s := by
  unfold spotKey Usable
  split
  · rename_i hown
    simp [hown]
  · rename_i hown
    cases hshared : (q.objs s).sharedSpotKey with
    | none => simp [hown]
    | some k => by_cases hk : k ∈ q.spots <;> simp [hown, hk, Option.filter]

theorem acquires_iff (q : EndpointQueue) (e : EntryRef) :
    q.acquires e = true ↔ ¬ q.Usable (q.sessionOf e) := by
  rw [← spotKey_isSome_iff, acquires]
  cases q.spotKey (q.objs (q.sessionOf e)) <;> simp

/-- `_eligible` decides the promotion rule. -/
theorem eligible_iff (htotal : q.inflightTotal = q.running.length)
    (e : EntryRef) : q.eligible e = true ↔ q.PromotionRule e := by
  have hidle : 0 < q.inflightTotal ↔ q.running ≠ [] := by
    rw [htotal, Int.natCast_pos, List.length_pos_iff]
  unfold eligible PromotionRule BelowCap
  rw [← spotKey_isSome_iff]
  by_cases hrun : q.running = []
  · have hnot : ¬ 0 < q.inflightTotal := fun h => hidle.mp h hrun
    by_cases hspot : (q.spotKey (q.objs (q.sessionOf e))).isSome = true
    · simp [hnot, hrun, hspot, or_comm]
    · simp [hnot, hrun, hspot]
  · have hpos := hidle.mpr hrun
    by_cases hatomic : q.cfg.atomicRequests = true
    · simp [hpos, hrun, hatomic]
    · by_cases hspot : (q.spotKey (q.objs (q.sessionOf e))).isSome = true
      · simp [hatomic, hspot, or_comm]
      · simp [hatomic, hspot]

/-! ### The promotions of an operation -/

/-- The entries a history records as enqueued, in order. -/
def enqueuedOf (log : List QueueEvent) : List EntryRef :=
  log.filterMap fun
    | .enqueued e => some e
    | _ => none

/-- The entries a history records as promoted, in order. -/
def promotedOf (log : List QueueEvent) : List EntryRef :=
  log.filterMap fun
    | .promoted e => some e
    | _ => none

/-- The promotions a visit of `tick` makes: those after the surrender of a spot. -/
def visitPromotions (now : Time) (promoteAt : Key → Time)
    (v : EndpointQueue × Key × SessionRef) : List (EndpointQueue × EntryRef) :=
  if v.1.surrenders v.2.2 now then
    ((v.1.recomputeAt v.2.2 now).freeSpot v.2.2 v.2.1).promotions (promoteAt v.2.1)
  else []

/-- The promotions an operation makes, each with the state it is made in. -/
def promotionsOf (q : EndpointQueue) : QueueOp → List (EndpointQueue × EntryRef)
  | .admitQueued r path sessionAt queuedAt promoteAt =>
      let prepared := q.prepare r path sessionAt queuedAt
      (prepared.2.append prepared.1).promotions promoteAt
  | .release e now promoteAt => (q.finish e now).promotions promoteAt
  | .releaseSession client sessionId promoteAt =>
      match q.sessions.get? (client, sessionId) with
      | some s =>
          if (q.objs s).spotHeld then
            (q.freeSpot s (client, sessionId)).promotions promoteAt
          else []
      | none => []
  | .tick now promoteAt => (q.visits now promoteAt).flatMap (visitPromotions now promoteAt)
  | .tryPromote now => q.promotions now
  | .abandon _ | .setReady _ | .setClientStatus .. | .setSharedSpotKey .. => []

theorem promotionsOf_releaseSession_of_held {client sessionId : String} {s : SessionRef}
    (hs : q.sessions.get? (client, sessionId) = some s) (hheld : (q.objs s).spotHeld = true) :
    q.promotionsOf (.releaseSession client sessionId now) =
      (q.freeSpot s (client, sessionId)).promotions now := by
  simp only [promotionsOf, hs, hheld, if_true]

theorem promotionsOf_releaseSession_of_not_held {client sessionId : String}
    (hno : ∀ s, q.sessions.get? (client, sessionId) = some s → (q.objs s).spotHeld = false) :
    q.promotionsOf (.releaseSession client sessionId now) = [] := by
  cases hs : q.sessions.get? (client, sessionId) with
  | none => simp only [promotionsOf, hs]
  | some s => simp [promotionsOf, hs, hno s hs]

theorem tryPromote_promoted (q : EndpointQueue) (now : Time) :
    promotedOf (q.tryPromote now).log = promotedOf q.log ++ (q.promotions now).map Prod.snd := by
  unfold tryPromote promotions
  split
  · refine Drain.drain_trace (fun q => promotedOf q.log) (f := id) ?_ _ q
    intro q e q' hnext
    obtain ⟨-, rfl⟩ := promoteNext_eq_some hnext
    show promotedOf (q.promote now e).log = _
    rw [promote_log]
    simp [promotedOf]
  · simp

theorem visit_promoted (now : Time) (promoteAt : Key → Time)
    (v : EndpointQueue × Key × SessionRef) :
    promotedOf (v.1.visit now (promoteAt v.2.1) v.2.1 v.2.2).1.log =
      promotedOf v.1.log ++ (visitPromotions now promoteAt v).map Prod.snd := by
  unfold visitPromotions
  rcases visit_cases v.1 now (promoteAt v.2.1) v.2.1 v.2.2 with
    ⟨hsur, heq⟩ | ⟨hsur, -, -, -, heq⟩ | ⟨hsur, -, heq⟩
  · rw [heq, if_pos hsur, releaseSpot, tryPromote_promoted]
    rfl
  · rw [heq, hsur]
    simp [recomputeAt]
  · rw [heq, hsur]
    simp [recomputeAt]

theorem tickLoop_promoted (now : Time) (promoteAt : Key → Time)
    (rest : List (Key × SessionRef)) (q : EndpointQueue) :
    promotedOf (tickLoop now promoteAt q rest).1.log = promotedOf q.log ++
      ((visitsOf now promoteAt q rest).flatMap (visitPromotions now promoteAt)).map Prod.snd := by
  induction rest generalizing q with
  | nil => simp [tickLoop, visitsOf]
  | cons p rest ih =>
      obtain ⟨key, s⟩ := p
      show promotedOf (tickLoop now promoteAt (q.visit now (promoteAt key) key s).1 rest).1.log = _
      rw [ih, visit_promoted now promoteAt (q, key, s)]
      simp [visitsOf]

/-- `promotionsOf` lists the promotions the history records for an operation. -/
theorem step_promoted {op : QueueOp} (hop : q.step op = some q') :
    promotedOf q'.log = promotedOf q.log ++ (q.promotionsOf op).map Prod.snd := by
  cases op with
  | admitQueued r path sessionAt queuedAt promoteAt =>
      obtain rfl := Option.some.inj hop
      show promotedOf (((q.prepare r path sessionAt queuedAt).2.append _).tryPromote _).log = _
      rw [tryPromote_promoted]
      have hlog : (q.prepare r path sessionAt queuedAt).2.log = q.log := by
        unfold prepare getOrCreateSession
        split <;> rfl
      simp [promotionsOf, append, hlog, promotedOf]
  | abandon e =>
      obtain ⟨-, hq'⟩ := Option.ite_none_right_eq_some.mp hop
      obtain rfl := Option.some.inj hq'
      unfold abandon
      split <;> simp [promotionsOf, promotedOf]
  | release e now promoteAt =>
      obtain ⟨-, hq'⟩ := Option.ite_none_right_eq_some.mp hop
      obtain rfl := Option.some.inj hq'
      show promotedOf ((q.finish e now).tryPromote promoteAt).log = _
      rw [tryPromote_promoted]
      simp [promotionsOf, finish, promotedOf]
  | releaseSession client sessionId promoteAt =>
      obtain rfl := Option.some.inj hop
      rcases releaseSession_cases q client sessionId promoteAt with ⟨s, hs, hheld, heq⟩ | ⟨hno, heq⟩
      · rw [heq, promotionsOf_releaseSession_of_held hs hheld]
        exact tryPromote_promoted _ promoteAt
      · rw [heq, promotionsOf_releaseSession_of_not_held hno]
        simp
  | tick now promoteAt =>
      obtain rfl := Option.some.inj hop
      exact tickLoop_promoted now promoteAt q.sessions.entries q
  | setReady ready =>
      obtain rfl := Option.some.inj hop
      simp [promotionsOf]
  | tryPromote now =>
      obtain rfl := Option.some.inj hop
      exact tryPromote_promoted q now
  | setClientStatus s status detail at' =>
      obtain ⟨-, hq'⟩ := Option.ite_none_right_eq_some.mp hop
      obtain rfl := Option.some.inj hq'
      simp [promotionsOf, setClientStatus]
  | setSharedSpotKey s key =>
      obtain ⟨-, hq'⟩ := Option.ite_none_right_eq_some.mp hop
      obtain rfl := Option.some.inj hq'
      simp [promotionsOf, setSharedSpotKey]

/-- The promotions of a managed operation are made of the entry selected, in states that
satisfy what the parts of such operations keep. -/
theorem Managed.promotionsOf {I : EndpointQueue → Prop} (hI : Managed I) (h : I q) {op : QueueOp}
    (hop : op.isManaged = true) : ∀ p ∈ q.promotionsOf op, I p.1 ∧ Selected p.1 p.2 := by
  have hinduct : ∀ {q₀ : EndpointQueue} {now : Time}, I q₀ →
      ∀ p ∈ q₀.promotions now, I p.1 ∧ Selected p.1 p.2 := fun {_ now} h₀ =>
    promotions_induction (fun q e hq hsel => hI.promote q e now hq hsel) h₀
  cases op with
  | admitQueued r path sessionAt queuedAt promoteAt => exact absurd hop Bool.false_ne_true
  | abandon e => exact absurd hop Bool.false_ne_true
  | release e now promoteAt => exact absurd hop Bool.false_ne_true
  | releaseSession client sessionId promoteAt =>
      rcases releaseSession_cases q client sessionId promoteAt with ⟨s, hs, hheld, -⟩ | ⟨hno, -⟩
      · rw [promotionsOf_releaseSession_of_held hs hheld]
        exact hinduct (hI.freeSpot q _ s h hs)
      · rw [promotionsOf_releaseSession_of_not_held hno]
        simp
  | tick now promoteAt =>
      intro p hp
      obtain ⟨v, hv, hp⟩ := List.mem_flatMap.mp hp
      obtain ⟨hvq, hvs⟩ := hI.visits h now promoteAt v hv
      unfold visitPromotions at hp
      split at hp
      · exact hinduct (hI.freeSpot _ _ _ (hI.recomputeAt hvq v.2.2 now) hvs) p hp
      · exact absurd hp List.not_mem_nil
  | tryPromote now => exact hinduct h
  | setReady ready => simp [EndpointQueue.promotionsOf]
  | setClientStatus s status detail at' => simp [EndpointQueue.promotionsOf]
  | setSharedSpotKey s key => simp [EndpointQueue.promotionsOf]

/-! ### The order invariant -/

/-- The key of the session an entry belongs to. -/
def keyOf (q : EndpointQueue) (e : EntryRef) : Key := (q.objs (q.sessionOf e)).key

/-- The queue is in order of arrival, and so are the promotions of each key. -/
structure Ordered (cfg : QueueConfig) (q : EndpointQueue) : Prop where
  sound : Sound cfg q
  sorted : q.queue.Pairwise (· < ·)
  enqueued_sorted : (enqueuedOf q.log).Pairwise (· < ·)
  enqueued_lt : ∀ e ∈ enqueuedOf q.log, e < q.entries.next
  queue_subset : q.queue ⊆ enqueuedOf q.log
  promoted_subset : promotedOf q.log ⊆ enqueuedOf q.log
  promoted_order : (promotedOf q.log).Pairwise (fun b a => q.keyOf b = q.keyOf a → b < a)
  promoted_ahead : ∀ b ∈ promotedOf q.log, ∀ a ∈ q.queue, q.keyOf b = q.keyOf a → b < a

theorem Ordered.init (cfg : QueueConfig) : Ordered cfg (EndpointQueue.init cfg) where
  sound := .init cfg
  sorted := List.Pairwise.nil
  enqueued_sorted := List.Pairwise.nil
  enqueued_lt := fun _ he => absurd he List.not_mem_nil
  queue_subset := List.nil_subset _
  promoted_subset := List.nil_subset _
  promoted_order := List.Pairwise.nil
  promoted_ahead := fun _ hb => absurd hb List.not_mem_nil

/-- A step that enqueues and promotes nothing keeps the order. -/
theorem Ordered.shrink (h : Ordered cfg q) (hsound : Sound cfg q')
    (hqueue : q'.queue.Sublist q.queue) (henq : enqueuedOf q'.log = enqueuedOf q.log)
    (hprom : promotedOf q'.log = promotedOf q.log) (hnext : q'.entries.next = q.entries.next)
    (hkey : ∀ e, q'.keyOf e = q.keyOf e) : Ordered cfg q' where
  sound := hsound
  sorted := h.sorted.sublist hqueue
  enqueued_sorted := by
    rw [henq]
    exact h.enqueued_sorted
  enqueued_lt := by
    rw [henq, hnext]
    exact h.enqueued_lt
  queue_subset := by
    rw [henq]
    exact List.Subset.trans hqueue.subset h.queue_subset
  promoted_subset := by
    rw [henq, hprom]
    exact h.promoted_subset
  promoted_order := by
    rw [hprom]
    simpa only [hkey] using h.promoted_order
  promoted_ahead := by
    rw [hprom]
    intro b hb a ha hkeys
    rw [hkey, hkey] at hkeys
    exact h.promoted_ahead b hb a (hqueue.subset ha) hkeys

/-- A write to one session that keeps its key keeps the keys of all entries. -/
theorem keyOf_modify {s : SessionRef} {f : Session → Session} (hf : ∀ x, (f x).key = x.key)
    (hentries : q'.entries = q.entries) (hobjs : q'.objs = q.objs.modify s f) (e : EntryRef) :
    q'.keyOf e = q.keyOf e := by
  rw [keyOf, sessionOf, hentries, hobjs]
  exact Heap.modify_proj Session.key q.objs s f hf _

/-! ### Every operation keeps the order -/

theorem eligible_congr {a b : EntryRef} (h : q.sessionOf a = q.sessionOf b) :
    q.eligible a = q.eligible b := by
  unfold eligible
  rw [h]

/-- Waiting entries with one key belong to one session object. -/
theorem Sound.sessionOf_eq_of_keyOf_eq (h : Sound cfg q) {a b : EntryRef} (ha : a ∈ q.queue)
    (hb : b ∈ q.queue) (hkey : q.keyOf a = q.keyOf b) : q.sessionOf a = q.sessionOf b :=
  Registry.registered_unique (h.registry.registered_of_mem_queue h.accounts ha)
    (h.registry.registered_of_mem_queue h.accounts hb) hkey

/-- The entry selected is the first of the waiting entries with its key. -/
theorem Ordered.selected_first (h : Ordered cfg q) (hsel : Selected q e) {a : EntryRef}
    (ha : a ∈ q.queue) (hkey : q.keyOf e = q.keyOf a) : a = e ∨ e < a := by
  have hsession := h.sound.sessionOf_eq_of_keyOf_eq hsel.mem ha hkey
  have helig : q.eligible a = true := by
    rw [← eligible_congr hsession]
    exact hsel.eligible
  exact Drain.eq_or_lt_of_find? h.sorted hsel.first ha helig

theorem promote_keyOf (q : EndpointQueue) (now : Time) (e e' : EntryRef) :
    (q.promote now e).keyOf e' = q.keyOf e' := by
  rw [keyOf, promote_sessionOf, promote_objs]
  exact Heap.modify_proj Session.key q.objs _ (Session.promoted _ now) (fun _ => rfl) _

theorem Ordered.promote (h : Ordered cfg q) (hsel : Selected q e) (now : Time) :
    Ordered cfg (q.promote now e) := by
  have henq : enqueuedOf (q.promote now e).log = enqueuedOf q.log := by
    rw [promote_log]
    simp [enqueuedOf]
  have hprom : promotedOf (q.promote now e).log = promotedOf q.log ++ [e] := by
    rw [promote_log]
    simp [promotedOf]
  have hkey := promote_keyOf q now e
  have hsub : (q.promote now e).queue.Sublist q.queue := by
    rw [promote_queue]
    exact List.erase_sublist
  refine
    { sound := managed_sound.promote q e now h.sound hsel
      sorted := h.sorted.sublist hsub
      enqueued_sorted := henq ▸ h.enqueued_sorted
      enqueued_lt := ?_
      queue_subset := ?_
      promoted_subset := ?_
      promoted_order := ?_
      promoted_ahead := ?_ }
  · rw [henq, promote_entries]
    exact h.enqueued_lt
  · rw [henq]
    exact List.Subset.trans hsub.subset h.queue_subset
  · rw [henq, hprom]
    exact List.append_subset.mpr ⟨h.promoted_subset, by simpa using h.queue_subset hsel.mem⟩
  · rw [hprom]
    simp only [hkey]
    refine List.pairwise_append.mpr ⟨h.promoted_order, List.pairwise_singleton _ _, ?_⟩
    intro b hb a ha hkeys
    obtain rfl := List.mem_singleton.mp ha
    exact h.promoted_ahead b hb a hsel.mem hkeys
  · rw [hprom, promote_queue]
    simp only [hkey]
    intro b hb a ha hkeys
    rcases List.mem_append.mp hb with hb | hb
    · exact h.promoted_ahead b hb a (List.mem_of_mem_erase ha) hkeys
    · obtain rfl := List.mem_singleton.mp hb
      obtain ⟨hne, ha⟩ := (h.sound.accounts.queue_nodup.mem_erase_iff).mp ha
      exact (h.selected_first hsel ha hkeys).resolve_left hne

/-- `get_or_create_session` keeps the keys of the session objects it finds. -/
theorem getOrCreateSession_key (q : EndpointQueue) (r : Requester) (now : Time)
    {s : SessionRef} (hs : s < q.objs.next) :
    ((q.getOrCreateSession r now).2.objs s).key = (q.objs s).key := by
  unfold getOrCreateSession
  cases q.sessions.get? r.key with
  | none => exact congrArg Session.key (Heap.alloc_of_lt _ _ hs)
  | some s' => exact Heap.modify_proj Session.key _ _ (Session.revive r now) (fun _ => rfl) s

/-- What `get_or_create_session` and the construction of an entry leave alone. -/
theorem prepare_frame (q : EndpointQueue) (r : Requester) (path : String)
    (sessionAt queuedAt : Time) :
    let prepared := q.prepare r path sessionAt queuedAt
    prepared.1 = q.entries.next ∧ prepared.2.entries.next = q.entries.next + 1 ∧
      prepared.2.queue = q.queue ∧ prepared.2.log = q.log ∧ prepared.2.ready = q.ready := by
  unfold prepare getOrCreateSession
  cases q.sessions.get? r.key <;> exact ⟨rfl, rfl, rfl, rfl, rfl⟩

theorem prepare_keyOf (hacc : Accounts q (fun _ => 0)) (r : Requester) (path : String)
    (sessionAt queuedAt : Time) (he : e < q.entries.next) :
    (q.prepare r path sessionAt queuedAt).2.keyOf e = q.keyOf e := by
  have hold : (q.getOrCreateSession r sessionAt).2.entries = q.entries := by
    unfold getOrCreateSession
    cases q.sessions.get? r.key <;> rfl
  have hsession : (q.prepare r path sessionAt queuedAt).2.sessionOf e = q.sessionOf e := by
    refine congrArg QueueEntry.session ((Heap.alloc_of_lt _ _ ?_).trans (by rw [hold]))
    rw [hold]
    exact he
  rw [keyOf, hsession]
  exact getOrCreateSession_key q r sessionAt (hacc.session_lt e he)

theorem Ordered.append (h : Ordered cfg q) (r : Requester) (path : String)
    (sessionAt queuedAt : Time) :
    Ordered cfg ((q.prepare r path sessionAt queuedAt).2.append
      (q.prepare r path sessionAt queuedAt).1) := by
  have hsound := h.sound.append r path sessionAt queuedAt
  obtain ⟨hfresh, hnext, hqueue, hlog, -⟩ := prepare_frame q r path sessionAt queuedAt
  have hkey := fun e he => prepare_keyOf (e := e) h.sound.accounts r path sessionAt queuedAt he
  set prepared := q.prepare r path sessionAt queuedAt
  have hqueue' : (prepared.2.append prepared.1).queue = q.queue ++ [prepared.1] := by
    rw [← hqueue]
    rfl
  have henq : enqueuedOf (prepared.2.append prepared.1).log = enqueuedOf q.log ++ [prepared.1] := by
    rw [append_log, hlog]
    simp [enqueuedOf]
  have hprom : promotedOf (prepared.2.append prepared.1).log = promotedOf q.log := by
    rw [append_log, hlog]
    simp [promotedOf]
  have hnew : ∀ e ∈ enqueuedOf q.log, e < prepared.1 := by
    rw [hfresh]
    exact h.enqueued_lt
  have hkey' : ∀ e ∈ enqueuedOf q.log,
      (prepared.2.append prepared.1).keyOf e = q.keyOf e := by
    intro e he
    rw [← hkey e (h.enqueued_lt e he)]
    have hentries : (prepared.2.append prepared.1).entries = prepared.2.entries := rfl
    exact keyOf_modify (f := Session.queued _) (fun _ => rfl) hentries (append_objs _ _) e
  refine
    { sound := hsound
      sorted := ?_
      enqueued_sorted := ?_
      enqueued_lt := ?_
      queue_subset := ?_
      promoted_subset := ?_
      promoted_order := ?_
      promoted_ahead := ?_ }
  · rw [hqueue']
    refine List.pairwise_append.mpr ⟨h.sorted, List.pairwise_singleton _ _, ?_⟩
    intro a ha b hb
    obtain rfl := List.mem_singleton.mp hb
    exact hnew a (h.queue_subset ha)
  · rw [henq]
    refine List.pairwise_append.mpr ⟨h.enqueued_sorted, List.pairwise_singleton _ _, ?_⟩
    intro a ha b hb
    obtain rfl := List.mem_singleton.mp hb
    exact hnew a ha
  · rw [henq]
    intro e he
    show e < prepared.2.entries.next
    rw [hnext]
    rcases List.mem_append.mp he with he | he
    · exact Nat.lt_succ_of_lt (h.enqueued_lt e he)
    · obtain rfl := List.mem_singleton.mp he
      rw [hfresh]
      exact Nat.lt_succ_self _
  · rw [hqueue', henq]
    exact List.append_subset.mpr ⟨List.Subset.trans h.queue_subset (List.subset_append_left _ _),
      List.subset_append_right _ _⟩
  · rw [henq, hprom]
    exact List.Subset.trans h.promoted_subset (List.subset_append_left _ _)
  · rw [hprom]
    refine h.promoted_order.imp_of_mem fun {b a} hb ha hlt hkeys => hlt ?_
    rwa [hkey' b (h.promoted_subset hb), hkey' a (h.promoted_subset ha)] at hkeys
  · rw [hprom, hqueue']
    intro b hb a ha hkeys
    have hb' := h.promoted_subset hb
    rcases List.mem_append.mp ha with ha | ha
    · rw [hkey' b hb', hkey' a (h.queue_subset ha)] at hkeys
      exact h.promoted_ahead b hb a ha hkeys
    · obtain rfl := List.mem_singleton.mp ha
      exact hnew b hb'

theorem Ordered.abandon (h : Ordered cfg q) (he : e ∈ q.queue) : Ordered cfg (q.abandon e) := by
  have hdone := (h.sound.accounts.queue_done e he).2
  have heq : q.abandon e = { q with
      queue := q.queue.erase e
      objs := q.objs.modify (q.sessionOf e) Session.unqueued
      log := q.log ++ [.abandoned e] } := by
    simp only [EndpointQueue.abandon, hdone]
    rfl
  have hsound := h.sound.abandon he
  rw [heq] at hsound ⊢
  refine h.shrink hsound List.erase_sublist ?_ ?_ rfl ?_
  · simp [enqueuedOf]
  · simp [promotedOf]
  · exact keyOf_modify (f := Session.unqueued) (fun _ => rfl) rfl rfl

theorem Ordered.finish (h : Ordered cfg q) (he : e ∈ q.running) (now : Time) :
    Ordered cfg (q.finish e now) := by
  refine h.shrink (h.sound.finish he now) (List.Sublist.refl _) ?_ ?_ rfl ?_
  · simp [EndpointQueue.finish, enqueuedOf]
  · simp [EndpointQueue.finish, promotedOf]
  · exact keyOf_modify (f := Session.finished now) (fun _ => rfl) rfl (finish_objs q e now)

theorem managed_ordered : Managed (Ordered cfg) where
  promote := fun _ _ now h hsel => h.promote hsel now
  freeSpot := fun q key s h hs =>
    h.shrink (managed_sound.freeSpot q key s h.sound hs) (List.Sublist.refl _) rfl rfl rfl
      (keyOf_modify (f := Session.spotless) (fun _ => rfl) rfl rfl)
  forget := fun q key s h hs hdead =>
    h.shrink (managed_sound.forget q key s h.sound hs hdead) (List.Sublist.refl _) rfl rfl rfl
      fun _ => rfl
  cosmetic := fun q s f h hf =>
    h.shrink (managed_sound.cosmetic q s f h.sound hf) (List.Sublist.refl _) rfl rfl rfl
      (keyOf_modify hf.key rfl rfl)
  setReady := fun q ready h =>
    h.shrink (managed_sound.setReady q ready h.sound) (List.Sublist.refl _) rfl rfl rfl
      fun _ => rfl

/-- Every operation keeps the order. -/
theorem Ordered.step (h : Ordered cfg q) {op : QueueOp} (hop : q.step op = some q') :
    Ordered cfg q' := by
  cases op with
  | admitQueued r path sessionAt queuedAt promoteAt =>
      obtain rfl := Option.some.inj hop
      exact managed_ordered.tryPromote (h.append r path sessionAt queuedAt) promoteAt
  | abandon e =>
      obtain ⟨he, hq'⟩ := Option.ite_none_right_eq_some.mp hop
      obtain rfl := Option.some.inj hq'
      exact h.abandon he
  | release e now promoteAt =>
      obtain ⟨he, hq'⟩ := Option.ite_none_right_eq_some.mp hop
      obtain rfl := Option.some.inj hq'
      exact managed_ordered.tryPromote (h.finish he now) promoteAt
  | _ => exact managed_ordered.step h rfl hop

/-- Every promotion of an operation is made of the entry selected, in an ordered
state. -/
theorem Ordered.promotionsOf (h : Ordered cfg q) {op : QueueOp} (hop : q.step op = some q') :
    ∀ p ∈ q.promotionsOf op, Ordered cfg p.1 ∧ Selected p.1 p.2 := by
  have hinduct : ∀ {q₀ : EndpointQueue} {now : Time}, Ordered cfg q₀ →
      ∀ p ∈ q₀.promotions now, Ordered cfg p.1 ∧ Selected p.1 p.2 := fun {_ now} h₀ =>
    promotions_induction (fun _ _ hq hsel => hq.promote hsel now) h₀
  cases op with
  | admitQueued r path sessionAt queuedAt promoteAt =>
      exact hinduct (h.append r path sessionAt queuedAt)
  | abandon e => simp [EndpointQueue.promotionsOf]
  | release e now promoteAt =>
      obtain ⟨he, -⟩ := Option.ite_none_right_eq_some.mp hop
      exact hinduct (h.finish he now)
  | _ => exact managed_ordered.promotionsOf h rfl

/-- The order holds after every run from a new queue. -/
theorem ordered_of_run {ops : List QueueOp} {ok : EndpointQueue → QueueOp → Prop}
    (h : Run (Steps step ok) (EndpointQueue.init cfg) ops q) : Ordered cfg q :=
  h.invariant (fun _ _ _ hs hstep => hs.step hstep.1) (Ordered.init cfg)

/-! ### No overtaking -/

/-- `a` stands ahead of `b` in the waiting queue. -/
def Ahead (q : EndpointQueue) (a b : EntryRef) : Prop := [a, b].Sublist q.queue

/-- Why a waiting entry `a` stays while `b` is promoted: its session has a usable spot
but is at its cap, or it has none, all spots are taken, and the session of `b` has one. -/
def PassedOver (q : EndpointQueue) (a b : EntryRef) : Prop :=
  (q.Usable (q.sessionOf a) ∧ ¬ q.BelowCap (q.sessionOf a)) ∨
    (¬ q.Usable (q.sessionOf a) ∧ q.spots.size = q.cfg.maxSpots ∧ q.Usable (q.sessionOf b))

theorem Sound.eligible_iff (h : Sound cfg q) (e : EntryRef) :
    q.eligible e = true ↔ q.PromotionRule e :=
  EndpointQueue.eligible_iff (by simpa using h.accounts.total_eq) e

/-- What stands ahead of the entry selected may not run, and for a reason of its own:
the atomic condition is the same for all entries. -/
theorem Ordered.passedOver (h : Ordered cfg q) (hsel : Selected q e) {a : EntryRef}
    (ha : a ∈ q.queue) (hlt : a < e) : q.PassedOver a e := by
  have hnot : ¬ q.PromotionRule a := by
    intro hrule
    rcases Drain.eq_or_lt_of_find? h.sorted hsel.first ha ((h.sound.eligible_iff a).mpr hrule) with
      rfl | hgt
    · exact Nat.lt_irrefl _ hlt
    · exact Nat.lt_asymm hlt hgt
  obtain ⟨hatomic, hmay⟩ := (h.sound.eligible_iff e).mp hsel.eligible
  by_cases husable : q.Usable (q.sessionOf a)
  · exact Or.inl ⟨husable, fun hcap => hnot ⟨hatomic, Or.inl ⟨husable, hcap⟩⟩⟩
  · have hfull : ¬ q.spots.size < q.cfg.maxSpots := fun hroom =>
      hnot ⟨hatomic, Or.inr ⟨husable, hroom⟩⟩
    refine Or.inr ⟨husable, ?_, ?_⟩
    · exact Nat.le_antisymm h.sound.registry.spots_le (Nat.not_lt.mp hfull)
    · rcases hmay with ⟨hb, -⟩ | ⟨-, hroom⟩
      · exact hb
      · exact absurd hroom hfull

/-- A session that takes a spot does so for the earliest of all waiting entries
whose sessions have no usable spot. -/
theorem Ordered.earliest (h : Ordered cfg q) (hsel : Selected q e)
    (hspotless : ¬ q.Usable (q.sessionOf e)) {a : EntryRef} (ha : a ∈ q.queue)
    (ha' : ¬ q.Usable (q.sessionOf a)) : a = e ∨ q.Ahead e a := by
  by_cases hae : a = e
  · exact Or.inl hae
  · rcases Nat.lt_or_gt_of_ne hae with hlt | hgt
    · -- an earlier one would have been passed over with a free spot at hand
      rcases h.passedOver hsel ha hlt with ⟨hus, -⟩ | ⟨-, -, hus⟩
      · exact absurd hus ha'
      · exact absurd hus hspotless
    · refine Or.inr (Drain.sublist_of_subset (List.pairwise_pair.mpr hgt) h.sorted ?_)
      intro x hx
      rcases List.mem_pair.mp hx with rfl | rfl
      · exact hsel.mem
      · exact ha

/-- The entries of a key are promoted in the order in which they were enqueued. -/
theorem Ordered.promoted_sublist (h : Ordered cfg q) (k : Key) :
    ((promotedOf q.log).filter (fun e => q.keyOf e = k)).Sublist
      ((enqueuedOf q.log).filter (fun e => q.keyOf e = k)) := by
  refine Drain.sublist_of_subset ?_ (h.enqueued_sorted.filter _)
    (List.filter_subset _ h.promoted_subset)
  refine List.pairwise_filter.mpr (h.promoted_order.imp fun {b a} hlt hb ha => hlt ?_)
  rw [of_decide_eq_true hb, of_decide_eq_true ha]

/-! ### No idle capacity -/

/-- After which operations `_try_promote` has run. -/
def PromotesAfter (q : EndpointQueue) : QueueOp → Prop
  | .admitQueued .. | .release .. | .tryPromote _ => True
  | .releaseSession client sessionId promoteAt =>
      (q.releaseSession client sessionId promoteAt).1 = true
  | .tick now promoteAt => (q.tick now promoteAt).2 ≠ []
  | .abandon _ | .setReady _ | .setClientStatus .. | .setSharedSpotKey .. => False

theorem Sound.exhausted_tryPromote (h : Sound cfg q) (hready : q.ready = true) (now : Time) :
    (q.tryPromote now).Exhausted := by
  intro e he hrule
  have hno := tryPromote_exhausts q now hready e he
  rw [((managed_sound.tryPromote h now).eligible_iff e).mpr hrule] at hno
  exact Bool.false_ne_true hno.symm

/-- The promotion rule reads neither the status of a session nor the session table. -/
theorem Exhausted.recompute (h : q.Exhausted) (s : SessionRef) (now : Time)
    (sessions : OrdDict Key SessionRef) :
    Exhausted { q.recomputeAt s now with sessions := sessions } := by
  have hkey := Heap.modify_proj Session.key q.objs s (Session.recompute q.cfg now) fun _ => rfl
  have hshared := Heap.modify_proj Session.sharedSpotKey q.objs s (Session.recompute q.cfg now)
    fun _ => rfl
  have hin := Heap.modify_proj Session.inflight q.objs s (Session.recompute q.cfg now) fun _ => rfl
  intro e he hrule
  refine h e he ?_
  simpa only [PromotionRule, Usable, BelowCap, recomputeAt, sessionOf, running, hkey, hshared,
    hin] using hrule

/-- A visit that surrenders a spot leaves no waiting entry that may run. -/
theorem Sound.exhausted_visit (h : Sound cfg q) (hready : q.ready = true) {key : Key}
    {s : SessionRef} (hs : q.sessions.get? key = some s) (now promoteAt : Time)
    (hsur : q.surrenders s now = true) : (q.visit now promoteAt key s).1.Exhausted := by
  rcases visit_cases q now promoteAt key s with ⟨-, heq⟩ | ⟨hno, -⟩ | ⟨hno, -⟩
  · rw [heq]
    exact (managed_sound.freeSpot _ key s
      (managed_sound.recomputeAt h s now) hs).exhausted_tryPromote hready promoteAt
  · exact absurd hsur (by simp [hno])
  · exact absurd hsur (by simp [hno])

/-- A visit that surrenders no spot creates no chance for a waiting entry. -/
theorem Exhausted.visit (h : q.Exhausted) (key : Key) (s : SessionRef) (now promoteAt : Time)
    (hsur : q.surrenders s now = false) : (q.visit now promoteAt key s).1.Exhausted := by
  rcases visit_cases q now promoteAt key s with ⟨hyes, -⟩ | ⟨-, -, -, -, heq⟩ | ⟨-, -, heq⟩
  · exact absurd hyes (by simp [hsur])
  · rw [heq]
    exact h.recompute s now _
  · rw [heq]
    exact h.recompute s now q.sessions

theorem visit_released (q : EndpointQueue) (now promoteAt : Time) (key : Key) (s : SessionRef) :
    (q.visit now promoteAt key s).2.isSome = q.surrenders s now := by
  have hobj : (q.recomputeAt s now).objs s = (q.objs s).recompute q.cfg now := by
    simp [recomputeAt]
  unfold visit surrenders
  simp only [hobj]
  by_cases hheld : ((q.objs s).recompute q.cfg now).spotHeld = true
  · by_cases hdue : ((q.objs s).recompute q.cfg now).due q.cfg now = true <;> simp [hheld, hdue]
  · by_cases hdead : ((q.objs s).recompute q.cfg now).waiting = 0 ∧
        ((q.objs s).recompute q.cfg now).inflight = 0 <;> simp [hheld, hdead]

/-- Once a `tick` has surrendered a spot, it ends with no waiting entry that may run. -/
theorem tickLoop_exhausted {promoteAt : Key → Time} (rest : List (Key × SessionRef))
    (q : EndpointQueue)
    (hvisits : ∀ v ∈ visitsOf now promoteAt q rest,
      Sound cfg v.1 ∧ v.1.ready = true ∧ v.1.sessions.get? v.2.1 = some v.2.2)
    (h : q.Exhausted ∨ (tickLoop now promoteAt q rest).2 ≠ []) :
    (tickLoop now promoteAt q rest).1.Exhausted := by
  induction rest generalizing q with
  | nil => exact h.resolve_right fun hne => hne rfl
  | cons p rest ih =>
      obtain ⟨key, s⟩ := p
      obtain ⟨hsound, hready, hs⟩ := hvisits (q, key, s) (by simp [visitsOf])
      refine ih _ (fun v hv => hvisits v (by simp [visitsOf, hv])) ?_
      have hreleased := visit_released q now (promoteAt key) key s
      cases hsur : q.surrenders s now with
      | true => exact Or.inl (hsound.exhausted_visit hready hs now (promoteAt key) hsur)
      | false =>
          rw [hsur, Option.isSome_eq_false_iff, Option.isNone_iff_eq_none] at hreleased
          rcases h with h | h
          · exact Or.inl (h.visit key s now (promoteAt key) hsur)
          · refine Or.inr fun hnil => h ?_
            show (q.visit now (promoteAt key) key s).2.toList ++ _ = []
            rw [hreleased, hnil]
            rfl

theorem visit_ready (q : EndpointQueue) (now promoteAt : Time) (key : Key) (s : SessionRef) :
    (q.visit now promoteAt key s).1.ready = q.ready := by
  rcases visit_cases q now promoteAt key s with ⟨-, heq⟩ | ⟨-, -, -, -, heq⟩ | ⟨-, -, heq⟩
  · rw [heq, releaseSpot, tryPromote_ready]
    rfl
  · rw [heq]
    rfl
  · rw [heq]
    rfl

/-- The visits of a `tick` on a ready queue. -/
theorem Sound.visits_ready (h : Sound cfg q) (hready : q.ready = true) (now : Time)
    (promoteAt : Key → Time) : ∀ v ∈ q.visits now promoteAt,
      Sound cfg v.1 ∧ v.1.ready = true ∧ v.1.sessions.get? v.2.1 = some v.2.2 := by
  intro v hv
  obtain ⟨⟨hsound, hr⟩, hs⟩ := visits_induction (I := fun q => Sound cfg q ∧ q.ready = true)
    (P := fun _ _ _ => True)
    (fun q key s hq hs _ => ⟨managed_sound.visit hq.1 hs now (promoteAt key),
      (visit_ready q now (promoteAt key) key s).trans hq.2⟩)
    (fun _ _ => trivial) ⟨h, hready⟩ v hv
  exact ⟨hsound, hr, hs⟩

/-- Where `_try_promote` has run on a ready queue, no waiting entry may run. -/
theorem Sound.exhausted_step (h : Sound cfg q) {op : QueueOp} (hop : q.step op = some q')
    (hready : q.ready = true) (hpromotes : q.PromotesAfter op) : q'.Exhausted := by
  cases op with
  | admitQueued r path sessionAt queuedAt promoteAt =>
      obtain rfl := Option.some.inj hop
      refine (h.append r path sessionAt queuedAt).exhausted_tryPromote ?_ promoteAt
      exact (prepare_frame q r path sessionAt queuedAt).2.2.2.2.trans hready
  | release e now promoteAt =>
      obtain ⟨he, hq'⟩ := Option.ite_none_right_eq_some.mp hop
      obtain rfl := Option.some.inj hq'
      exact (h.finish he now).exhausted_tryPromote hready promoteAt
  | releaseSession client sessionId promoteAt =>
      obtain rfl := Option.some.inj hop
      rcases releaseSession_cases q client sessionId promoteAt with ⟨s, hs, -, heq⟩ | ⟨-, heq⟩
      · rw [heq]
        exact (managed_sound.freeSpot q _ s h hs).exhausted_tryPromote hready promoteAt
      · have hfalse : (q.releaseSession client sessionId promoteAt).1 = true := hpromotes
        rw [heq] at hfalse
        exact absurd hfalse Bool.false_ne_true
  | tick now promoteAt =>
      obtain rfl := Option.some.inj hop
      exact tickLoop_exhausted q.sessions.entries q (h.visits_ready hready now promoteAt)
        (Or.inr hpromotes)
  | tryPromote now =>
      obtain rfl := Option.some.inj hop
      exact h.exhausted_tryPromote hready now
  | abandon e => exact absurd hpromotes id
  | setReady ready => exact absurd hpromotes id
  | setClientStatus s status detail at' => exact absurd hpromotes id
  | setSharedSpotKey s key => exact absurd hpromotes id

/-- **FIFO without overtaking, and no idle capacity.** Let an operation follow two
runs in a row. The promotions it makes are those its history records. An entry that
stood ahead of the promoted one, at the end of the first run or when the promotion is
made, and still waits, is passed over for a reason of its own. The entries of a
session are promoted in the order in which they were enqueued, and sessions take spots
in the order of their earliest waiting entry. After every enqueue, release, surrender
or `_try_promote` on a ready queue, no waiting entry satisfies the promotion rule. -/
theorem fifo_without_overtaking {ops₁ ops₂ : List QueueOp} {op : QueueOp} {q₁ : EndpointQueue}
    (h₁ : Run (Steps step Any) (EndpointQueue.init cfg) ops₁ q₁)
    (h₂ : Run (Steps step Any) q₁ ops₂ q) (hop : q.step op = some q') :
    promotedOf q'.log = promotedOf q.log ++ (q.promotionsOf op).map Prod.snd ∧
    (∀ p ∈ q.promotionsOf op, ∀ a ∈ p.1.queue,
      q₁.Ahead a p.2 ∨ p.1.Ahead a p.2 → p.1.PassedOver a p.2) ∧
    (∀ k, ((promotedOf q'.log).filter (fun e => q'.keyOf e = k)).Sublist
      ((enqueuedOf q'.log).filter (fun e => q'.keyOf e = k))) ∧
    (∀ p ∈ q.promotionsOf op, ¬ p.1.Usable (p.1.sessionOf p.2) →
      ∀ a ∈ p.1.queue, ¬ p.1.Usable (p.1.sessionOf a) → a = p.2 ∨ p.1.Ahead p.2 a) ∧
    (q.ready = true → q.PromotesAfter op → q'.Exhausted) ∧
    (∀ now promoteAt, op = .tick now promoteAt → q.ready = true →
      ∀ v ∈ q.visits now promoteAt, v.1.surrenders v.2.2 now = true →
        (v.1.visit now (promoteAt v.2.1) v.2.1 v.2.2).1.Exhausted) := by
  have hord₁ := ordered_of_run h₁
  have hord := ordered_of_run (h₁.append h₂)
  have hpromotions := hord.promotionsOf hop
  refine ⟨step_promoted hop, ?_, (hord.step hop).promoted_sublist, ?_,
    hord.sound.exhausted_step hop, ?_⟩
  · intro p hp a ha hahead
    obtain ⟨hp₁, hsel⟩ := hpromotions p hp
    refine hp₁.passedOver hsel ha ?_
    rcases hahead with hahead | hahead
    · exact Drain.lt_of_pair_sublist hord₁.sorted hahead
    · exact Drain.lt_of_pair_sublist hp₁.sorted hahead
  · intro p hp hspotless a ha ha'
    obtain ⟨hp₁, hsel⟩ := hpromotions p hp
    exact hp₁.earliest hsel hspotless ha ha'
  · intro now promoteAt _ hready v hv hsur
    obtain ⟨hsound, hr, hs⟩ := hord.sound.visits_ready hready now promoteAt v hv
    exact hsound.exhausted_visit hr hs now (promoteAt v.2.1) hsur

/-- One session holds the only spot, another waits behind it. -/
def oneWaits : List QueueOp :=
  [.setReady true, .admitQueued (requester "a") "/x" 1 1 1, .admitQueued (requester "b") "/y" 2 2 2]

theorem fifo_without_overtaking_secondRequest :
    ∃ q q', exec step (EndpointQueue.init oneSpot) oneWaits = some q ∧
      q.step (.admitQueued (requester "a") "/z" 3 3 3) = some q' ∧ q'.queue = [1] ∧ q'.Exhausted ∧
      ∃ p ∈ q.promotionsOf (.admitQueued (requester "a") "/z" 3 3 3),
        p.2 = 2 ∧ p.1.PassedOver 1 2 := by
  have hview : (exec step (EndpointQueue.init oneSpot) oneWaits).map
      (fun q => (q.ready, (q.admitQueued (requester "a") "/z" 3 3 3).queue,
        (q.promotionsOf (.admitQueued (requester "a") "/z" 3 3 3)).map
          (fun p => (p.1.queue, p.2)))) =
      some (true, [1], [([1, 2], 2)]) := by decide +kernel
  obtain ⟨q, hexec, hq⟩ := Option.map_eq_some_iff.mp hview
  obtain ⟨hready, hq⟩ := Prod.mk.inj hq
  obtain ⟨hqueue, hpromoted⟩ := Prod.mk.inj hq
  obtain ⟨p, hp, hpq⟩ := List.mem_map.mp (hpromoted.symm ▸ List.mem_singleton_self _)
  obtain ⟨hpqueue, hp2⟩ := Prod.mk.inj hpq
  obtain ⟨-, hpassed, -, -, hexhausted, -⟩ := fifo_without_overtaking
    (run_any_of_exec hexec) (.nil q)
    (show q.step (.admitQueued (requester "a") "/z" 3 3 3) = some _ from rfl)
  refine ⟨q, _, hexec, rfl, hqueue, hexhausted hready trivial, p, hp, hp2, ?_⟩
  have hahead : p.1.Ahead 1 p.2 := by
    rw [Ahead, hpqueue, hp2]
  rw [← hp2]
  exact hpassed p hp 1 (by simp [hpqueue]) (Or.inr hahead)

end EndpointQueue

end Relay
