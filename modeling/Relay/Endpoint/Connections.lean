import Relay.Endpoint.Moves
import Relay.Queue.Lifecycle

/-!
# Relay.Endpoint.Connections

What a queued WebSocket does to the queue (`_hold_ws_spot`, `_release_ws_spot`): the
function each part applies to the session of the connection, the fields it leaves alone,
and what becomes of the accounting. A connection touches no entry and no history.
-/

namespace Relay

/-! ### What a connection writes to its session -/

namespace Session

/-- What the start of a connection writes to its session. -/
def connected (x : Session) : Session := { x with inflight := x.inflight + 1 }

/-- What the end of a connection writes to its session. -/
def disconnected (x : Session) : Session :=
  { x with inflight := if 0 < x.inflight then x.inflight - 1 else x.inflight }

/-- What the loss of its spot writes to the session of a connection. -/
def dropped (x : Session) : Session := { x with spotHeld := false }

end Session

namespace EndpointQueue

variable {q q' : EndpointQueue} {s : SessionRef} {held held' : SessionRef → Nat}

theorem countWs_objs (q : EndpointQueue) (s : SessionRef) :
    (q.countWs s).objs = q.objs.modify s Session.connected := rfl

theorem endWs_objs (q : EndpointQueue) (s : SessionRef) :
    (q.endWs s).objs = q.objs.modify s Session.disconnected := rfl

theorem dropSpot_objs (q : EndpointQueue) (s : SessionRef) :
    (q.dropSpot s).objs = q.objs.modify s Session.dropped := rfl

/-- `q'` has the entries, the history and the total of `q`. -/
structure SameEntries (q q' : EndpointQueue) : Prop where
  cfg_eq : q'.cfg = q.cfg
  queue_eq : q'.queue = q.queue
  entries_eq : q'.entries = q.entries
  log_eq : q'.log = q.log
  total_eq : q'.inflightTotal = q.inflightTotal
  next_eq : q'.objs.next = q.objs.next

theorem SameEntries.trans {q'' : EndpointQueue} (h : SameEntries q q')
    (h' : SameEntries q' q'') : SameEntries q q'' where
  cfg_eq := h'.cfg_eq.trans h.cfg_eq
  queue_eq := h'.queue_eq.trans h.queue_eq
  entries_eq := h'.entries_eq.trans h.entries_eq
  log_eq := h'.log_eq.trans h.log_eq
  total_eq := h'.total_eq.trans h.total_eq
  next_eq := h'.next_eq.trans h.next_eq

theorem sameEntries_countWs (q : EndpointQueue) (s : SessionRef) : SameEntries q (q.countWs s) :=
  ⟨rfl, rfl, rfl, rfl, rfl, rfl⟩

theorem sameEntries_acquireSpot (q : EndpointQueue) (s : SessionRef) (now : Time) :
    SameEntries q (q.acquireSpot s now) :=
  ⟨rfl, rfl, rfl, rfl, rfl, rfl⟩

theorem sameEntries_endWs (q : EndpointQueue) (s : SessionRef) : SameEntries q (q.endWs s) :=
  ⟨rfl, rfl, rfl, rfl, rfl, rfl⟩

theorem sameEntries_dropSpot (q : EndpointQueue) (s : SessionRef) : SameEntries q (q.dropSpot s) :=
  ⟨rfl, rfl, rfl, rfl, rfl, rfl⟩

/-- A connection that is given a spot runs on a spot its session could use already, or
takes a free one. -/
theorem holdWsSpot_cases {now : Time} (h : q.holdWsSpot s now = some q') :
    ((q.spotKey (q.objs s)).isSome = true ∧ q' = q.countWs s) ∨
    ((q.spotKey (q.objs s)).isNone = true ∧ q.spots.size < q.cfg.maxSpots ∧
      q' = (q.acquireSpot s now).countWs s) := by
  unfold holdWsSpot at h
  split at h
  · rename_i hspot
    exact Or.inl ⟨hspot, (Option.some.inj h).symm⟩
  · rename_i hspot
    obtain ⟨hroom, hq⟩ := Option.ite_none_right_eq_some.mp h
    exact Or.inr ⟨by simpa using hspot, hroom, (Option.some.inj hq).symm⟩

/-- Whether there is a spot does not depend on the clock. -/
theorem holdWsSpot_isSome (q : EndpointQueue) (s : SessionRef) (now now' : Time) :
    (q.holdWsSpot s now).isSome = (q.holdWsSpot s now').isSome := by
  unfold holdWsSpot
  split
  · rfl
  · split <;> rfl

theorem sameEntries_holdWsSpot {now : Time} (h : q.holdWsSpot s now = some q') :
    SameEntries q q' := by
  rcases holdWsSpot_cases h with ⟨-, rfl⟩ | ⟨-, -, rfl⟩
  · exact sameEntries_countWs q s
  · exact (sameEntries_acquireSpot q s now).trans (sameEntries_countWs _ s)

/-- The end of a connection counts it out; when its session held a spot of its own, the
spot is dropped and the queue promoted. -/
theorem releaseWsSpot_cases (q : EndpointQueue) (s : SessionRef) (now : Time) :
    ((q.objs s).key ∈ q.spots ∧
      q.releaseWsSpot s now = ((q.endWs s).dropSpot s).tryPromote now) ∨
    ((q.objs s).key ∉ q.spots ∧ q.releaseWsSpot s now = q.endWs s) := by
  have hkey : ((q.endWs s).objs s).key = (q.objs s).key := by
    rw [endWs_objs]
    exact Heap.modify_proj Session.key _ _ Session.disconnected (fun _ => rfl) s
  have hspots : (q.endWs s).spots = q.spots := rfl
  unfold releaseWsSpot
  simp only [hkey, hspots]
  by_cases hmem : (q.objs s).key ∈ q.spots
  · exact Or.inl ⟨hmem, if_pos hmem⟩
  · exact Or.inr ⟨hmem, if_neg hmem⟩

theorem Filed.holdWsSpot {now : Time} (h : Filed q) (hhold : q.holdWsSpot s now = some q') :
    Filed q' := by
  have hcounted : ∀ q : EndpointQueue, Filed q → Filed (q.countWs s) := fun q h =>
    h.modify (f := Session.connected) (fun _ => rfl) rfl (countWs_objs q s)
  rcases holdWsSpot_cases hhold with ⟨-, rfl⟩ | ⟨-, -, rfl⟩
  · exact hcounted q h
  · exact hcounted _ (h.modify (f := Session.holding now) (fun _ => rfl) rfl
      (acquireSpot_objs q s now))

/-! ### What a connection does to the counters -/

namespace Accounts

/-- A connection is counted in. -/
theorem countWs (h : Accounts q held) (hs : s < q.objs.next)
    (hheld : ∀ s', held' s' = held s' + if s' = s then 1 else 0) :
    Accounts (q.countWs s) held' := by
  refine { h with held_lt := ?_, waiting_eq := ?_, inflight_eq := ?_ }
  · intro s' hs'
    show s' < q.objs.next
    by_cases heq : s' = s
    · rw [heq]
      exact hs
    · rw [hheld, if_neg heq] at hs'
      exact h.held_lt s' hs'
  · intro s'
    rw [countWs_objs, Heap.modify_proj Session.waiting _ _ Session.connected fun _ => rfl]
    exact h.waiting_eq s'
  · intro s'
    have hin := h.inflight_eq s'
    rw [countWs_objs, Heap.modify_apply, hheld]
    show _ = (q.runningCount s' : Int) + _
    split
    · rename_i heq
      subst heq
      show (q.objs s').inflight + 1 = _
      rw [hin]
      push_cast
      omega
    · rw [hin, Nat.add_zero]

theorem acquireSpot (h : Accounts q held) (s : SessionRef) (now : Time) :
    Accounts (q.acquireSpot s now) held := by
  refine h.congr rfl rfl rfl rfl rfl fun s' => ?_
  rw [acquireSpot_objs]
  exact ⟨Heap.modify_proj Session.waiting q.objs s (Session.holding now) (fun _ => rfl) s',
    Heap.modify_proj Session.inflight q.objs s (Session.holding now) (fun _ => rfl) s'⟩

theorem holdWsSpot {now : Time} (h : Accounts q held) (hs : s < q.objs.next)
    (hhold : q.holdWsSpot s now = some q')
    (hheld : ∀ s', held' s' = held s' + if s' = s then 1 else 0) : Accounts q' held' := by
  rcases holdWsSpot_cases hhold with ⟨-, rfl⟩ | ⟨-, -, rfl⟩
  · exact h.countWs hs hheld
  · exact (h.acquireSpot s now).countWs hs hheld

/-- A connection is counted out. -/
theorem endWs (h : Accounts q held)
    (hheld : ∀ s', held' s' + (if s' = s then 1 else 0) = held s') :
    Accounts (q.endWs s) held' := by
  have hpos : 0 < (q.objs s).inflight := by
    refine h.inflight_pos_of_held ?_
    rw [← hheld, if_pos rfl]
    exact Nat.succ_ne_zero _
  refine { h with held_lt := ?_, waiting_eq := ?_, inflight_eq := ?_ }
  · intro s' hs'
    refine h.held_lt s' ?_
    rw [← hheld]
    omega
  · intro s'
    rw [endWs_objs, Heap.modify_proj Session.waiting _ _ Session.disconnected fun _ => rfl]
    exact h.waiting_eq s'
  · intro s'
    have hin := h.inflight_eq s'
    have hcount := hheld s'
    rw [endWs_objs, Heap.modify_apply]
    show _ = (q.runningCount s' : Int) + _
    split
    · rename_i heq
      subst heq
      rw [if_pos rfl] at hcount
      show (if 0 < (q.objs s').inflight then _ else _) = _
      rw [if_pos hpos, hin, ← hcount]
      push_cast
      omega
    · rename_i hne
      rw [if_neg hne] at hcount
      rw [hin, ← hcount, Nat.add_zero]

theorem dropSpot (h : Accounts q held) (s : SessionRef) : Accounts (q.dropSpot s) held := by
  refine h.congr rfl rfl rfl rfl rfl fun s' => ?_
  rw [dropSpot_objs]
  exact ⟨Heap.modify_proj Session.waiting q.objs s Session.dropped (fun _ => rfl) s',
    Heap.modify_proj Session.inflight q.objs s Session.dropped (fun _ => rfl) s'⟩

end Accounts

/-! ### What a connection does to the registry

The session of a connection has to be the registered one; while the connection runs it
is, because it is live. -/

namespace Registry

theorem countWs (h : Registry q) (hreg : q.Registered s) : Registry (q.countWs s) :=
  h.modify (f := Session.connected) (fun _ => rfl) (fun _ => rfl) rfl rfl rfl (countWs_objs q s)
    fun _ => hreg

theorem holdWsSpot {now : Time} (h : Registry q) (hreg : q.Registered s)
    (hhold : q.holdWsSpot s now = some q') : Registry q' := by
  rcases holdWsSpot_cases hhold with ⟨-, rfl⟩ | ⟨hnone, hroom, rfl⟩
  · exact h.countWs hreg
  · refine (h.acquireSpot hreg (not_mem_of_spotKey_isNone hnone) hroom now).countWs ?_
    rw [Registered, acquireSpot_objs,
      Heap.modify_proj Session.key _ _ (Session.holding now) fun _ => rfl]
    exact hreg

theorem endWs (h : Registry q) (hreg : q.Registered s) : Registry (q.endWs s) :=
  h.modify (f := Session.disconnected) (fun _ => rfl) (fun _ => rfl) rfl rfl rfl (endWs_objs q s)
    fun _ => hreg

theorem dropSpot (h : Registry q) (hreg : q.Registered s) : Registry (q.dropSpot s) :=
  h.clearSpot hreg (f := Session.dropped) (fun _ => rfl) fun _ => rfl

/-- A session that a connection runs on is registered. -/
theorem registered_of_held (h : Registry q) (hacc : Accounts q held) (hs : held s ≠ 0) :
    q.Registered s := by
  have hpos := hacc.inflight_pos_of_held hs
  exact h.live s (Or.inr (Or.inr (by omega)))

end Registry

end EndpointQueue

end Relay
