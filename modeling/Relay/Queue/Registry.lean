import Relay.Queue.Accounting

/-!
# Relay.Queue.Registry

**The session table and the spots.** `Registry q` says that the table files every
session object under its own key, that the keys of `spots` are exactly the keys of
the table whose session holds a spot, that there are at most `max_spots` of them,
and that no *live* session object (one that holds a spot or has a request waiting
or in flight) has been forgotten.

Unlike the accounting this can be broken by an operation that works on a session
object the table has dropped, so the lemmas about operations that make a session
live ask for a registered one.
-/

namespace Relay

namespace EndpointQueue

variable {q q' : EndpointQueue} {e : EntryRef} {s : SessionRef} {now : Time}
  {held : SessionRef → Nat}

/-- The session object holds a spot or has a request waiting or in flight. -/
def Live (q : EndpointQueue) (s : SessionRef) : Prop :=
  (q.objs s).spotHeld = true ∨ (q.objs s).waiting ≠ 0 ∨ (q.objs s).inflight ≠ 0

/-- The session object is the one the table stores under its key. -/
def Registered (q : EndpointQueue) (s : SessionRef) : Prop :=
  q.sessions.get? (q.objs s).key = some s

/-- The session table, the spots and the `spot_held` flags agree. -/
structure Registry (q : EndpointQueue) : Prop where
  key_of : ∀ k s, q.sessions.get? k = some s → (q.objs s).key = k
  alloc_lt : ∀ k s, q.sessions.get? k = some s → s < q.objs.next
  spot_iff : ∀ k, k ∈ q.spots ↔ ∃ s, q.sessions.get? k = some s ∧ (q.objs s).spotHeld = true
  live : ∀ s, q.Live s → q.Registered s
  spots_le : q.spots.size ≤ q.cfg.maxSpots

namespace Registry

theorem init (cfg : QueueConfig) : Registry (EndpointQueue.init cfg) where
  key_of := fun _ _ h => absurd h (by simp [EndpointQueue.init])
  alloc_lt := fun _ _ h => absurd h (by simp [EndpointQueue.init])
  spot_iff := fun k => by simp [EndpointQueue.init]
  live := fun s h => by
    rcases h with h | h | h
    · exact absurd h Bool.false_ne_true
    · exact absurd rfl h
    · exact absurd rfl h
  spots_le := Nat.zero_le _

theorem registered_of_get? (h : Registry q) {k : Key} (hs : q.sessions.get? k = some s) :
    q.Registered s := by
  rw [Registered, h.key_of k s hs]
  exact hs

/-- A registered session holds a spot exactly when its key is one of `spots`. -/
theorem spotHeld_iff (h : Registry q) (hs : q.Registered s) :
    (q.objs s).spotHeld = true ↔ (q.objs s).key ∈ q.spots := by
  rw [h.spot_iff]
  constructor
  · intro hheld
    exact ⟨s, hs, hheld⟩
  · rintro ⟨s', hs', hheld⟩
    obtain rfl : s = s' := Option.some.inj (hs.symm.trans hs')
    exact hheld

/-- Two registered session objects with one key are the same object. -/
theorem registered_unique {s' : SessionRef} (hs : q.Registered s) (hs' : q.Registered s')
    (hkey : (q.objs s).key = (q.objs s').key) : s = s' := by
  rw [Registered] at hs hs'
  rw [hkey, hs'] at hs
  exact (Option.some.inj hs).symm

/-! ### Operations that leave table and spots alone -/

/-- The keys and the spots of the sessions stay, and only registered sessions are
live afterwards. -/
theorem congr (h : Registry q) (hcfg : q'.cfg = q.cfg) (hsessions : q'.sessions = q.sessions)
    (hspots : q'.spots = q.spots) (hnext : q'.objs.next = q.objs.next)
    (hobjs : ∀ s, (q'.objs s).key = (q.objs s).key ∧ (q'.objs s).spotHeld = (q.objs s).spotHeld)
    (hlive : ∀ s, q'.Live s → q.Registered s) : Registry q' := by
  constructor
  · intro k s hs
    rw [hsessions] at hs
    rw [(hobjs s).1, h.key_of k s hs]
  · intro k s hs
    rw [hsessions] at hs
    rw [hnext]
    exact h.alloc_lt k s hs
  · intro k
    simp only [hspots, hsessions, (hobjs _).2]
    exact h.spot_iff k
  · intro s hs
    rw [Registered, hsessions, (hobjs s).1]
    exact hlive s hs
  · rw [hspots, hcfg]
    exact h.spots_le

/-- One session is updated without touching its key or its spot; if the update
makes it live, it was registered. -/
theorem modify (h : Registry q) {f : Session → Session} (hkey : ∀ x, (f x).key = x.key)
    (hspot : ∀ x, (f x).spotHeld = x.spotHeld) (hcfg : q'.cfg = q.cfg)
    (hsessions : q'.sessions = q.sessions) (hspots : q'.spots = q.spots)
    (hobjs : q'.objs = q.objs.modify s f) (hreg : q'.Live s → q.Registered s) :
    Registry q' := by
  refine h.congr hcfg hsessions hspots (by rw [hobjs]; rfl) (fun s' => ?_) (fun s' hs' => ?_)
  · rw [hobjs]
    exact ⟨Heap.modify_proj Session.key _ _ f hkey s',
      Heap.modify_proj Session.spotHeld _ _ f hspot s'⟩
  · by_cases heq : s' = s
    · rw [heq] at hs' ⊢
      exact hreg hs'
    · rw [Live, hobjs, Heap.modify_of_ne _ _ heq] at hs'
      exact h.live s' hs'

theorem cosmetic (h : Registry q) {f : Session → Session} (hf : Session.Cosmetic f)
    (hcfg : q'.cfg = q.cfg) (hsessions : q'.sessions = q.sessions)
    (hspots : q'.spots = q.spots) (hobjs : q'.objs = q.objs.modify s f) : Registry q' := by
  refine h.modify hf.key hf.spotHeld hcfg hsessions hspots hobjs fun hlive => h.live s ?_
  rw [Live, hobjs, Heap.modify_self, hf.spotHeld, hf.waiting, hf.inflight] at hlive
  exact hlive

theorem recomputeAt (h : Registry q) (s : SessionRef) (now : Time) :
    Registry (q.recomputeAt s now) :=
  h.cosmetic (Session.cosmetic_recompute q.cfg now) rfl rfl rfl rfl

theorem append (h : Registry q) (hreg : q.Registered (q.sessionOf e)) :
    Registry (q.append e) :=
  h.modify (f := Session.queued (q.entries e).path) (fun _ => rfl) (fun _ => rfl) rfl rfl rfl rfl
    fun _ => hreg

theorem abandon (h : Registry q) (hreg : q.Registered (q.sessionOf e)) :
    Registry (q.abandon e) := by
  by_cases hdone : (q.entries e).done
  · rw [EndpointQueue.abandon, if_pos hdone]
    exact h
  · have hobjs := abandon_objs (q := q) (e := e) (by simpa using hdone)
    refine h.modify (f := Session.unqueued) (fun _ => rfl) (fun _ => rfl) ?_ ?_ ?_ hobjs
      fun _ => hreg
    all_goals simp [EndpointQueue.abandon, hdone]

theorem finish (h : Registry q) (hreg : q.Registered (q.sessionOf e)) (now : Time) :
    Registry (q.finish e now) :=
  h.modify (f := Session.finished now) (fun _ => rfl) (fun _ => rfl) rfl rfl rfl
    (finish_objs q e now) fun _ => hreg

/-! ### A session takes a spot -/

theorem acquireSpot (h : Registry q) (hreg : q.Registered s) (hfree : (q.objs s).key ∉ q.spots)
    (hroom : q.spots.size < q.cfg.maxSpots) (now : Time) : Registry (q.acquireSpot s now) := by
  have hobj : ∀ s', ((q.acquireSpot s now).objs s').key = (q.objs s').key := by
    rw [acquireSpot_objs]
    exact Heap.modify_proj Session.key _ _ (Session.holding now) fun _ => rfl
  constructor
  · intro k s' hs'
    rw [hobj]
    exact h.key_of k s' hs'
  · exact h.alloc_lt
  · intro k
    change k ∈ q.spots.insert (q.objs s).key now ↔
      ∃ s', q.sessions.get? k = some s' ∧ ((q.acquireSpot s now).objs s').spotHeld = true
    rw [OrdDict.mem_insert]
    by_cases hk : k = (q.objs s).key
    · subst hk
      exact iff_of_true (Or.inl rfl) ⟨s, hreg, by simp [EndpointQueue.acquireSpot]⟩
    · -- another key: its session is another object, which keeps its flag
      have hother : ∀ s', q.sessions.get? k = some s' →
          (q.acquireSpot s now).objs s' = q.objs s' := by
        intro s' hs'
        rw [acquireSpot_objs]
        refine Heap.modify_of_ne _ _ fun heq => hk ?_
        rw [← heq, h.key_of k s' hs']
      rw [or_iff_right hk, h.spot_iff]
      constructor
      · rintro ⟨s', hs', hheld⟩
        exact ⟨s', hs', by rw [hother s' hs']; exact hheld⟩
      · rintro ⟨s', hs', hheld⟩
        exact ⟨s', hs', by rw [hother s' hs'] at hheld; exact hheld⟩
  · intro s' hs'
    rw [Registered, hobj]
    by_cases heq : s' = s
    · rw [heq]
      exact hreg
    · rw [Live, EndpointQueue.acquireSpot, Heap.modify_of_ne _ _ heq] at hs'
      exact h.live s' hs'
  · change (q.spots.insert (q.objs s).key now).size ≤ q.cfg.maxSpots
    rw [OrdDict.size_insert_of_not_mem hfree]
    exact hroom

/-- A session without a usable spot does not hold its own. -/
theorem not_mem_of_spotKey_isNone {x : Session} (hx : (q.spotKey x).isNone) :
    x.key ∉ q.spots := by
  intro hmem
  simp [spotKey, hmem] at hx

/-- An eligible entry whose session has no usable spot finds a free one. -/
theorem room_of_eligible (helig : q.eligible e = true) (hacq : q.acquires e = true) :
    q.spots.size < q.cfg.maxSpots := by
  have hnone : (q.spotKey (q.objs (q.sessionOf e))).isSome = false := by
    simpa [acquires] using hacq
  unfold eligible at helig
  simp only [hnone] at helig
  split at helig
  · exact absurd helig Bool.false_ne_true
  · simpa using helig

theorem promote (h : Registry q) (hreg : q.Registered (q.sessionOf e))
    (helig : q.eligible e = true) (now : Time) : Registry (q.promote now e) := by
  have hstart : Registry (q.startEntry e) :=
    h.modify (f := Session.started) (fun _ => rfl) (fun _ => rfl) rfl rfl rfl rfl fun _ => hreg
  have hkey : ((q.startEntry e).objs (q.sessionOf e)).key = (q.objs (q.sessionOf e)).key := by
    rw [startEntry_objs]
    exact Heap.modify_proj Session.key _ _ Session.started (fun _ => rfl) _
  unfold EndpointQueue.promote
  dsimp only
  rw [startEntry_spotKey]
  split
  · rename_i hacq
    have hplaced := hstart.acquireSpot (s := q.sessionOf e)
      (by rw [Registered, hkey]; exact hreg)
      (by rw [hkey]; exact not_mem_of_spotKey_isNone (q := q) hacq)
      (room_of_eligible (q := q) helig hacq) now
    exact hplaced.cosmetic Session.cosmetic_running rfl rfl rfl rfl
  · exact hstart.cosmetic Session.cosmetic_running rfl rfl rfl rfl

/-! ### A session is created, or gives up its spot -/

theorem getOrCreateSession (h : Registry q) (r : Requester) (now : Time) :
    Registry (q.getOrCreateSession r now).2 := by
  unfold EndpointQueue.getOrCreateSession
  split
  · rename_i hnone
    -- the objects of the table are older than the new one
    have hold : ∀ k s, q.sessions.get? k = some s →
        q.objs.alloc (Session.new r now) s = q.objs s :=
      fun k s hs => Heap.alloc_of_lt _ _ (h.alloc_lt k s hs)
    have hnoSpot : r.key ∉ q.spots := by
      rw [h.spot_iff, hnone]
      simp
    constructor
    · intro k s hs
      change (q.objs.alloc (Session.new r now) s).key = k
      change (q.sessions.insert r.key q.objs.next).get? k = some s at hs
      rw [OrdDict.get?_insert] at hs
      split at hs
      · rename_i hk
        rw [← Option.some.inj hs, Heap.alloc_self, hk]
        rfl
      · rw [hold k s hs]
        exact h.key_of k s hs
    · intro k s hs
      change (q.sessions.insert r.key q.objs.next).get? k = some s at hs
      change s < q.objs.next + 1
      rw [OrdDict.get?_insert] at hs
      split at hs
      · rw [← Option.some.inj hs]
        exact Nat.lt_succ_self _
      · exact Nat.lt_succ_of_lt (h.alloc_lt k s hs)
    · intro k
      change k ∈ q.spots ↔ ∃ s, (q.sessions.insert r.key q.objs.next).get? k = some s ∧
        (q.objs.alloc (Session.new r now) s).spotHeld = true
      rw [OrdDict.get?_insert]
      split
      · rename_i hk
        rw [hk]
        refine iff_of_false hnoSpot ?_
        rintro ⟨s, hs, hheld⟩
        rw [← Option.some.inj hs, Heap.alloc_self] at hheld
        exact Bool.false_ne_true hheld
      · rw [h.spot_iff]
        constructor
        · rintro ⟨s, hs, hheld⟩
          exact ⟨s, hs, by rw [hold k s hs]; exact hheld⟩
        · rintro ⟨s, hs, hheld⟩
          exact ⟨s, hs, by rw [hold k s hs] at hheld; exact hheld⟩
    · intro s hs
      have hne : s ≠ q.objs.next := by
        rintro rfl
        rw [Live] at hs
        change (q.objs.alloc (Session.new r now) q.objs.next).spotHeld = true ∨
          (q.objs.alloc (Session.new r now) q.objs.next).waiting ≠ 0 ∨
          (q.objs.alloc (Session.new r now) q.objs.next).inflight ≠ 0 at hs
        rw [Heap.alloc_self] at hs
        simp [Session.new] at hs
      have hsame : q.objs.alloc (Session.new r now) s = q.objs s := Heap.alloc_of_ne _ _ hne
      have hreg : q.sessions.get? (q.objs s).key = some s := by
        refine h.live s ?_
        rw [Live] at hs ⊢
        rw [← hsame]
        exact hs
      change (q.sessions.insert r.key q.objs.next).get?
        (q.objs.alloc (Session.new r now) s).key = some s
      rw [hsame, OrdDict.get?_insert_of_ne, hreg]
      intro hkey
      rw [hkey, hnone] at hreg
      exact absurd hreg (by simp)
    · exact h.spots_le
  · exact h.cosmetic (Session.cosmetic_revive r now) rfl rfl rfl rfl

/-- Forgetting a session that is not live. -/
theorem forget (h : Registry q) {key : Key} (hs : q.sessions.get? key = some s)
    (hdead : ¬ q.Live s) : Registry { q with sessions := q.sessions.erase key } := by
  have hlookup : ∀ k s', (q.sessions.erase key).get? k = some s' →
      q.sessions.get? k = some s' := by
    intro k s' hs'
    rw [OrdDict.get?_erase] at hs'
    split at hs'
    · exact absurd hs' (by simp)
    · exact hs'
  constructor
  · exact fun k s' hs' => h.key_of k s' (hlookup k s' hs')
  · exact fun k s' hs' => h.alloc_lt k s' (hlookup k s' hs')
  · intro k
    change k ∈ q.spots ↔
      ∃ s', (q.sessions.erase key).get? k = some s' ∧ (q.objs s').spotHeld = true
    rw [h.spot_iff, OrdDict.get?_erase]
    split
    · rename_i hk
      subst hk
      refine iff_of_false ?_ (by simp)
      rintro ⟨s', hs', hheld⟩
      rw [hs] at hs'
      exact hdead (Or.inl (Option.some.inj hs' ▸ hheld))
    · rfl
  · intro s' hlive
    change (q.sessions.erase key).get? (q.objs s').key = some s'
    have hreg : q.sessions.get? (q.objs s').key = some s' := h.live s' hlive
    rw [OrdDict.get?_erase_of_ne, hreg]
    intro hkey
    rw [hkey, hs] at hreg
    exact hdead (Option.some.inj hreg ▸ hlive)
  · exact h.spots_le

/-- The spot of a registered session is given up, without forgetting it. -/
theorem clearSpot (h : Registry q) {key : Key} (hs : q.sessions.get? key = some s)
    {f : Session → Session} (hkey : ∀ x, (f x).key = x.key)
    (hspot : ∀ x, (f x).spotHeld = false) :
    Registry { q with spots := q.spots.erase key, objs := q.objs.modify s f } := by
  have hsame : ∀ s', (q.objs.modify s f s').key = (q.objs s').key :=
    Heap.modify_proj Session.key _ _ _ hkey
  constructor
  · intro k s' hs'
    change (q.objs.modify s f s').key = k
    rw [hsame]
    exact h.key_of k s' hs'
  · exact h.alloc_lt
  · intro k
    change k ∈ q.spots.erase key ↔
      ∃ s', q.sessions.get? k = some s' ∧ (q.objs.modify s f s').spotHeld = true
    rw [OrdDict.mem_erase]
    by_cases hk : k = key
    · subst hk
      refine iff_of_false (fun hmem => hmem.1 rfl) ?_
      rintro ⟨s', hs', hheld⟩
      obtain rfl : s = s' := Option.some.inj (hs.symm.trans hs')
      rw [Heap.modify_self, hspot] at hheld
      exact Bool.false_ne_true hheld
    · have hother : ∀ s', q.sessions.get? k = some s' → q.objs.modify s f s' = q.objs s' := by
        intro s' hs'
        refine Heap.modify_of_ne _ _ fun heq => hk ?_
        rw [← h.key_of k s' hs', heq, h.key_of key s hs]
      rw [and_iff_right hk, h.spot_iff]
      constructor
      · rintro ⟨s', hs', hheld⟩
        exact ⟨s', hs', by rw [hother s' hs']; exact hheld⟩
      · rintro ⟨s', hs', hheld⟩
        exact ⟨s', hs', by rw [hother s' hs'] at hheld; exact hheld⟩
  · intro s' hlive
    change q.sessions.get? (q.objs.modify s f s').key = some s'
    rw [hsame]
    by_cases heq : s' = s
    · rw [heq]
      exact h.registered_of_get? hs
    · refine h.live s' ?_
      rw [Live] at hlive ⊢
      rw [← Heap.modify_of_ne q.objs f heq]
      exact hlive
  · have := OrdDict.size_erase_le q.spots key
    exact le_trans this h.spots_le

theorem freeSpot (h : Registry q) {key : Key} (hs : q.sessions.get? key = some s) :
    Registry (q.freeSpot s key) := by
  have hcleared := h.clearSpot hs (f := Session.spotless) (fun _ => rfl) (fun _ => rfl)
  unfold EndpointQueue.freeSpot
  dsimp only
  split
  · rename_i hzero
    refine hcleared.forget hs ?_
    rintro (hheld | hwait | hin)
    · exact absurd hheld (by simp [Session.spotless])
    · exact hwait hzero.1
    · exact hin hzero.2
  · exact hcleared

/-! ### Sessions with requests

Promotions and releases concern sessions with a waiting or running entry, which are
live by the accounting and therefore registered. -/

theorem registered_of_mem_queue (h : Registry q) (hacc : Accounts q held) (he : e ∈ q.queue) :
    q.Registered (q.sessionOf e) := by
  have := hacc.waiting_pos he
  exact h.live _ (Or.inr (Or.inl (by omega)))

theorem registered_of_mem_running (h : Registry q) (hacc : Accounts q held)
    (he : e ∈ q.running) : q.Registered (q.sessionOf e) := by
  have := hacc.inflight_pos he
  exact h.live _ (Or.inr (Or.inr (by omega)))

end Registry

/-! ### What the table files, whatever happens

An operation on a session object the table has dropped breaks the registry, but not the
part of it that speaks of the table alone. -/

/-- Every session the table stores exists, and is stored under its own key. -/
def Filed (q : EndpointQueue) : Prop :=
  ∀ k s, q.sessions.get? k = some s → s < q.objs.next ∧ (q.objs s).key = k

namespace Filed

theorem init (cfg : QueueConfig) : Filed (EndpointQueue.init cfg) :=
  fun _ _ hs => absurd hs (by simp [EndpointQueue.init])

/-- The table refers to no session object twice. -/
theorem values_nodup (h : Filed q) : q.sessions.values.Nodup := by
  have hinj : ∀ p ∈ q.sessions.entries, (q.objs p.2).key = p.1 := fun p hp =>
    (h p.1 p.2 (OrdDict.get?_eq_some_iff.mpr hp)).2
  refine List.Nodup.of_map (fun s => (q.objs s).key) ?_
  have hkeys : q.sessions.values.map (fun s => (q.objs s).key) = q.sessions.keys := by
    unfold OrdDict.values OrdDict.keys
    rw [List.map_map]
    exact List.map_congr_left hinj
  rw [hkeys]
  exact q.sessions.keys_nodup

/-- One session is updated without touching its key. -/
theorem modify (h : Filed q) {f : Session → Session} (hkey : ∀ x, (f x).key = x.key)
    (hsessions : q'.sessions = q.sessions) (hobjs : q'.objs = q.objs.modify s f) : Filed q' := by
  intro k s' hs'
  rw [hsessions] at hs'
  rw [hobjs, Heap.modify_proj Session.key _ _ f hkey]
  exact h k s' hs'

theorem congr (h : Filed q) (hsessions : q'.sessions = q.sessions) (hobjs : q'.objs = q.objs) :
    Filed q' := by
  intro k s' hs'
  rw [hsessions] at hs'
  rw [hobjs]
  exact h k s' hs'

theorem forget (h : Filed q) (key : Key) : Filed { q with sessions := q.sessions.erase key } := by
  intro k s' hs'
  change (q.sessions.erase key).get? k = some s' at hs'
  rw [OrdDict.get?_erase] at hs'
  split at hs'
  · exact absurd hs' (by simp)
  · exact h k s' hs'

theorem freeSpot (h : Filed q) (s : SessionRef) (key : Key) : Filed (q.freeSpot s key) := by
  have hcleared : Filed { q with
      spots := q.spots.erase key, objs := q.objs.modify s Session.spotless } :=
    h.modify (f := Session.spotless) (fun _ => rfl) rfl rfl
  unfold EndpointQueue.freeSpot
  dsimp only
  split
  · exact hcleared.forget key
  · exact hcleared

theorem promote (h : Filed q) (now : Time) (e : EntryRef) : Filed (q.promote now e) :=
  h.modify (f := Session.promoted (q.acquires e) now) (fun _ => rfl) (promote_sessions q now e)
    (promote_objs q now e)

theorem abandon (h : Filed q) (e : EntryRef) : Filed (q.abandon e) := by
  unfold EndpointQueue.abandon
  split
  · exact h
  · exact h.modify (f := Session.unqueued) (fun _ => rfl) rfl rfl

theorem getOrCreateSession (h : Filed q) (r : Requester) (now : Time) :
    Filed (q.getOrCreateSession r now).2 ∧
      (q.getOrCreateSession r now).1 < (q.getOrCreateSession r now).2.objs.next := by
  unfold EndpointQueue.getOrCreateSession
  cases hs : q.sessions.get? r.key with
  | none =>
      refine ⟨fun k s hk => ?_, Nat.lt_succ_self _⟩
      change (q.sessions.insert r.key q.objs.next).get? k = some s at hk
      show s < q.objs.next + 1 ∧ (q.objs.alloc (Session.new r now) s).key = k
      rw [OrdDict.get?_insert] at hk
      split at hk
      · rename_i hkey
        rw [← Option.some.inj hk, Heap.alloc_self, hkey]
        exact ⟨Nat.lt_succ_self _, rfl⟩
      · rw [Heap.alloc_of_lt _ _ (h k s hk).1]
        exact ⟨Nat.lt_succ_of_lt (h k s hk).1, (h k s hk).2⟩
  | some s =>
      exact ⟨h.modify (f := Session.revive r now) (fun _ => rfl) rfl rfl, (h r.key s hs).1⟩

end Filed

end EndpointQueue

end Relay
