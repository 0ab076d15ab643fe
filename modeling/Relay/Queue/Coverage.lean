import Relay.Clients.SharedSpot
import Relay.Queue.Fifo

/-!
# Relay.Queue.Coverage

**Which running requests are covered by a held spot.** A session runs on its own spot
or, as a sub-agent, on the spot of an ancestor. A promotion always leaves the session
with a usable spot (`Covered.promote`), and a session never loses its own spot while it
runs. What can take the spot away from under a running sub-agent is the surrender of the
ancestor's spot, whose deadline reads the ancestor's own requests only, and a poll that
points the sub-agent at an ancestor without a usable spot. `Covered.freeSpot` and
`Covered.share` state both conditions exactly; `covered_of_run` carries them over runs.
-/

namespace Relay

open Runs

namespace EndpointQueue

variable {q q' : EndpointQueue} {e : EntryRef} {now : Time} {cfg : QueueConfig}

/-! ### Runs of a polled queue -/

/-- An operation on a queue whose shared spots are written by the status poller only. -/
inductive PolledOp
  | queue (op : QueueOp)
  /-- The poller recomputes the shared spot of a session from its parent cache. -/
  | share (s : SessionRef) (base : String) (cache : ParentCache) (depth : Int)

/-- The spot `resolve_shared_spot` gives the session `s`. -/
def resolvedSpot (q : EndpointQueue) (s : SessionRef) (base : String) (cache : ParentCache)
    (depth : Int) : Option Key :=
  q.resolveSharedSpot base (q.objs s).sessionId cache (q.objs s).client depth

/-- One operation; sessions are not released by hand, and the poller skips unknown
clients. -/
def polledStep (q : EndpointQueue) : PolledOp → Option EndpointQueue
  | .queue (.releaseSession ..) | .queue (.setSharedSpotKey ..) => none
  | .queue op => q.step op
  | .share s base cache depth =>
      if s < q.objs.next ∧ (q.objs s).client ≠ "unknown" then
        some (q.setSharedSpotKey s (q.resolvedSpot s base cache depth))
      else none

/-- The parent relation a poll reads has no cycle. -/
def AcyclicParents : PolledOp → Prop
  | .share _ base cache _ => cache.Acyclic base
  | .queue _ => True

/-! ### Coverage -/

/-- Every session with a request in flight has a usable spot. -/
def Covered (q : EndpointQueue) : Prop := ∀ s, 0 < (q.objs s).inflight → q.Usable s

/-- The session runs on a spot that is not its own. -/
def Borrows (q : EndpointQueue) (s : SessionRef) (key : Key) : Prop :=
  0 < (q.objs s).inflight ∧ (q.objs s).key ∉ q.spots ∧ (q.objs s).sharedSpotKey = some key

/-- The operation takes no spot away from under a running sub-agent: the spots a `tick`
surrenders are borrowed by no session at that moment, and a sub-agent that runs on a
borrowed spot is pointed at an ancestor with a usable one. -/
def KeepsCover (q : EndpointQueue) : PolledOp → Prop
  | .queue (.tick now promoteAt) =>
      ∀ v ∈ q.visits now promoteAt, v.1.surrenders v.2.2 now = true →
        ∀ s, ¬ v.1.Borrows s v.2.1
  | .queue _ => True
  | .share s base cache depth =>
      0 < (q.objs s).inflight → (q.objs s).key ∉ q.spots →
        ∃ a, q.closestAncestor base (q.objs s).sessionId cache (q.objs s).client depth = some a ∧
          q.Usable a

theorem Covered.init (cfg : QueueConfig) : Covered (EndpointQueue.init cfg) :=
  fun _ h => absurd h (Int.lt_irrefl 0)

/-- An operation that keeps the spots and lets nothing new run keeps the cover. -/
theorem Covered.congr (h : Covered q) (hspots : ∀ k, k ∈ q.spots → k ∈ q'.spots)
    (hobjs : ∀ s, 0 < (q'.objs s).inflight → 0 < (q.objs s).inflight ∧
      (q'.objs s).key = (q.objs s).key ∧ (q'.objs s).sharedSpotKey = (q.objs s).sharedSpotKey) :
    Covered q' := by
  intro s hs
  obtain ⟨hrun, hkey, hshared⟩ := hobjs s hs
  rcases h s hrun with hown | ⟨k, hk, hin⟩
  · exact Or.inl (by rw [hkey]; exact hspots _ hown)
  · exact Or.inr ⟨k, by rw [hshared, hk], hspots _ hin⟩

/-- A write to one session that lets nothing new run keeps the cover. -/
theorem Covered.modify (h : Covered q) {s : SessionRef} {f : Session → Session}
    (hkey : ∀ x, (f x).key = x.key) (hshared : ∀ x, (f x).sharedSpotKey = x.sharedSpotKey)
    (hin : 0 < (f (q.objs s)).inflight → 0 < (q.objs s).inflight)
    (hspots : q'.spots = q.spots) (hobjs : q'.objs = q.objs.modify s f) : Covered q' := by
  refine h.congr (fun k hk => by rw [hspots]; exact hk) fun s' hs' => ?_
  rw [hobjs] at hs' ⊢
  refine ⟨?_, Heap.modify_proj Session.key _ _ f hkey s',
    Heap.modify_proj Session.sharedSpotKey _ _ f hshared s'⟩
  rw [Heap.modify_apply] at hs'
  split at hs'
  · rename_i heq
    rw [heq]
    exact hin hs'
  · exact hs'

/-! ### What each operation does to the cover -/

/-- A promoted session has a usable spot: its own, a shared one, or a new one. -/
theorem Covered.promote (h : Covered q) (now : Time) (e : EntryRef) :
    Covered (q.promote now e) := by
  have hgrow : ∀ k, k ∈ q.spots → k ∈ (q.promote now e).spots := by
    intro k hk
    rw [promote_spots]
    split
    · exact OrdDict.mem_insert.mpr (Or.inr hk)
    · exact hk
  have hkey : ∀ s, ((q.promote now e).objs s).key = (q.objs s).key := by
    rw [promote_objs]
    exact Heap.modify_proj Session.key _ _ (Session.promoted _ now) fun _ => rfl
  have hshared : ∀ s, ((q.promote now e).objs s).sharedSpotKey = (q.objs s).sharedSpotKey := by
    rw [promote_objs]
    exact Heap.modify_proj Session.sharedSpotKey _ _ (Session.promoted _ now) fun _ => rfl
  have hkeep : ∀ s, q.Usable s → (q.promote now e).Usable s := by
    intro s hs
    rcases hs with hown | ⟨k, hk, hin⟩
    · exact Or.inl (by rw [hkey]; exact hgrow _ hown)
    · exact Or.inr ⟨k, by rw [hshared, hk], hgrow _ hin⟩
  intro s hs
  by_cases hse : s = q.sessionOf e
  · cases hacq : q.acquires e with
    | true =>
        refine Or.inl ?_
        rw [hkey, promote_spots, hacq, hse]
        exact OrdDict.mem_insert.mpr (Or.inl rfl)
    | false =>
        have husable : q.Usable (q.sessionOf e) := by
          by_contra hnot
          rw [(acquires_iff q e).mpr hnot] at hacq
          exact Bool.false_ne_true hacq.symm
        exact hkeep s (hse ▸ husable)
  · rw [promote_objs, Heap.modify_of_ne _ _ hse] at hs
    exact hkeep s (h s hs)

theorem Covered.tryPromote (h : Covered q) (now : Time) : Covered (q.tryPromote now) :=
  tryPromote_induction (I := Covered) (fun _ e hq _ => hq.promote now e) h

theorem Covered.getOrCreateSession (h : Covered q) (r : Requester) (now : Time) :
    Covered (q.getOrCreateSession r now).2 := by
  unfold EndpointQueue.getOrCreateSession
  cases hs : q.sessions.get? r.key with
  | none =>
      refine h.congr (fun _ hk => hk) fun s hrun => ?_
      change 0 < (q.objs.alloc (Session.new r now) s).inflight at hrun
      show 0 < (q.objs s).inflight ∧ (q.objs.alloc (Session.new r now) s).key = _ ∧
        (q.objs.alloc (Session.new r now) s).sharedSpotKey = _
      by_cases hnew : s = q.objs.next
      · -- the new session runs nothing yet
        rw [hnew, Heap.alloc_self] at hrun
        exact absurd hrun (Int.lt_irrefl 0)
      · rw [Heap.alloc_of_ne _ _ hnew] at hrun ⊢
        exact ⟨hrun, rfl, rfl⟩
  | some s => exact h.modify (f := Session.revive r now) (fun _ => rfl) (fun _ => rfl) id rfl rfl

theorem Covered.append (h : Covered q) (r : Requester) (path : String)
    (sessionAt queuedAt : Time) :
    Covered ((q.prepare r path sessionAt queuedAt).2.append
      (q.prepare r path sessionAt queuedAt).1) := by
  have hcreated := h.getOrCreateSession r sessionAt
  exact hcreated.modify (f := Session.queued _) (fun _ => rfl) (fun _ => rfl) id rfl
    (append_objs _ _)

theorem Covered.abandon (h : Covered q) (e : EntryRef) : Covered (q.abandon e) := by
  unfold EndpointQueue.abandon
  cases (q.entries e).done with
  | true => exact h
  | false =>
      exact h.modify (f := Session.unqueued) (fun _ => rfl) (fun _ => rfl) id rfl rfl

theorem Covered.finish (h : Covered q) (e : EntryRef) (now : Time) :
    Covered (q.finish e now) := by
  refine h.modify (f := Session.finished now) (fun _ => rfl) (fun _ => rfl) ?_ rfl
    (finish_objs q e now)
  intro hrun
  unfold Session.finished at hrun
  by_contra hidle
  simp [hidle] at hrun

theorem Covered.recomputeAt (h : Covered q) (s : SessionRef) (now : Time) :
    Covered (q.recomputeAt s now) :=
  h.modify (f := Session.recompute q.cfg now) (fun _ => rfl) (fun _ => rfl) id rfl rfl

/-- The surrender of the spot of an idle session keeps the cover exactly when no
session runs on it. -/
theorem Covered.freeSpot_iff (h : Covered q) (hsound : Sound cfg q) {key : Key} {s : SessionRef}
    (hs : q.sessions.get? key = some s) (hidle : ¬ 0 < (q.objs s).inflight) :
    Covered (q.freeSpot s key) ↔ ∀ s', ¬ q.Borrows s' key := by
  have hkeyOf : (q.objs s).key = key := hsound.registry.key_of key s hs
  have hkey : ∀ s', ((q.freeSpot s key).objs s').key = (q.objs s').key := by
    rw [freeSpot_objs]
    exact Heap.modify_proj Session.key _ _ Session.spotless fun _ => rfl
  have hshared : ∀ s', ((q.freeSpot s key).objs s').sharedSpotKey = (q.objs s').sharedSpotKey := by
    rw [freeSpot_objs]
    exact Heap.modify_proj Session.sharedSpotKey _ _ Session.spotless fun _ => rfl
  have hin : ∀ s', ((q.freeSpot s key).objs s').inflight = (q.objs s').inflight := by
    rw [freeSpot_objs]
    exact Heap.modify_proj Session.inflight _ _ Session.spotless fun _ => rfl
  have hspots : ∀ k, k ∈ (q.freeSpot s key).spots ↔ k ≠ key ∧ k ∈ q.spots :=
    fun k => OrdDict.mem_erase
  constructor
  · intro hcov s' hborrows
    obtain ⟨hrun, hown, hborrowed⟩ := hborrows
    rcases hcov s' (by rw [hin]; exact hrun) with hmem | ⟨k, hk, hmem⟩
    · rw [hkey, hspots] at hmem
      exact hown hmem.2
    · rw [hshared, hborrowed] at hk
      exact ((hspots k).mp hmem).1 (Option.some.inj hk).symm
  · intro hfree s' hrun
    rw [hin] at hrun
    have hother : (q.objs s').key ≠ key := by
      -- another session under this key would be the one that is idle
      intro heq
      have hreg := hsound.registry.live s' (Or.inr (Or.inr (Int.ne_of_gt hrun)))
      rw [Registered, heq, hs] at hreg
      obtain rfl := Option.some.inj hreg
      exact hidle hrun
    by_cases hown : (q.objs s').key ∈ q.spots
    · exact Or.inl (by rw [hkey, hspots]; exact ⟨hother, hown⟩)
    · rcases h s' hrun with hown' | ⟨k, hk, hmem⟩
      · exact absurd hown' hown
      · refine Or.inr ⟨k, by rw [hshared, hk], (hspots k).mpr ⟨?_, hmem⟩⟩
        intro heq
        exact hfree s' ⟨hrun, hown, by rw [hk, heq]⟩

/-- A session whose spot a visit surrenders has no request in flight. -/
theorem not_inflight_of_surrenders {s : SessionRef} (h : q.surrenders s now = true) :
    ¬ 0 < (q.objs s).inflight := by
  unfold surrenders at h
  obtain ⟨-, hdue⟩ := Bool.and_eq_true_iff.mp h
  intro hrun
  rw [Session.due_eq_false_of_inflight (x := (q.objs s).recompute q.cfg now) hrun] at hdue
  exact Bool.false_ne_true hdue

/-- A visit that surrenders no borrowed spot keeps the cover. -/
theorem Covered.visit (h : Covered q) (hsound : Sound cfg q) {key : Key} {s : SessionRef}
    (hs : q.sessions.get? key = some s) (now promoteAt : Time)
    (hfree : q.surrenders s now = true → ∀ s', ¬ q.Borrows s' key) :
    Covered (q.visit now promoteAt key s).1 := by
  have hrec := h.recomputeAt s now
  rcases visit_cases q now promoteAt key s with ⟨hsur, heq⟩ | ⟨-, -, -, -, heq⟩ | ⟨-, -, heq⟩
  · rw [heq]
    have hidle := not_inflight_of_surrenders hsur
    have hproj := fun {β : Type} (π : Session → β) (hπ : ∀ x, π (x.recompute q.cfg now) = π x)
      (s' : SessionRef) => Heap.modify_proj π q.objs s (Session.recompute q.cfg now) hπ s'
    refine Covered.tryPromote ?_ promoteAt
    refine (hrec.freeSpot_iff (managed_sound.recomputeAt hsound s now) hs ?_).mpr ?_
    · exact fun hrun => hidle ((hproj Session.inflight (fun _ => rfl) s) ▸ hrun)
    · intro s' hborrows
      obtain ⟨hrun, hown, hborrowed⟩ := hborrows
      refine hfree hsur s' ⟨?_, ?_, ?_⟩
      · exact (hproj Session.inflight (fun _ => rfl) s') ▸ hrun
      · exact (hproj Session.key (fun _ => rfl) s') ▸ hown
      · exact (hproj Session.sharedSpotKey (fun _ => rfl) s') ▸ hborrowed
  · rw [heq]
    exact hrec
  · rw [heq]
    exact hrec

/-- Pointing a session elsewhere keeps the cover exactly when it does not run on a
borrowed spot, or the new one is held. -/
theorem Covered.share_iff (h : Covered q) (s : SessionRef) (key : Option Key) :
    Covered (q.setSharedSpotKey s key) ↔
      (0 < (q.objs s).inflight → (q.objs s).key ∉ q.spots → ∃ k, key = some k ∧ k ∈ q.spots) := by
  have hobjs : (q.setSharedSpotKey s key).objs = q.objs.modify s (Session.sharing key) := rfl
  have hself : (q.setSharedSpotKey s key).objs s = (q.objs s).sharing key := by
    rw [hobjs, Heap.modify_self]
  constructor
  · intro hcov hrun hown
    rcases hcov s (by rw [hself]; exact hrun) with hmem | hshared
    · rw [hself] at hmem
      exact absurd hmem hown
    · rw [hself] at hshared
      exact hshared
  · intro hcond s' hrun
    by_cases hss : s' = s
    · subst hss
      rw [hself] at hrun
      rw [Usable, hself]
      by_cases hown : (q.objs s').key ∈ q.spots
      · exact Or.inl hown
      · exact Or.inr (hcond hrun hown)
    · have hsame : (q.setSharedSpotKey s key).objs s' = q.objs s' := by
        rw [hobjs, Heap.modify_of_ne _ _ hss]
      rw [hsame] at hrun
      rw [Usable, hsame]
      exact h s' hrun

/-- The poller points a session at a held spot exactly when its closest tracked ancestor
has a usable one. -/
theorem resolvedSpot_mem_iff (q : EndpointQueue) (s : SessionRef) (base : String)
    (cache : ParentCache) (depth : Int) :
    (∃ k, q.resolvedSpot s base cache depth = some k ∧ k ∈ q.spots) ↔
      ∃ a, q.closestAncestor base (q.objs s).sessionId cache (q.objs s).client depth = some a ∧
        q.Usable a := by
  have hoffer : ∀ a, q.offeredSpot a ∈ q.spots ↔ q.Usable a := by
    intro a
    unfold offeredSpot spotKey Usable
    by_cases hown : (q.objs a).key ∈ q.spots
    · simp [hown]
    · cases hshared : (q.objs a).sharedSpotKey with
      | none => simp [hown]
      | some k => by_cases hk : k ∈ q.spots <;> simp [hown, hk, Option.filter]
  rw [resolvedSpot, resolveSharedSpot_eq]
  cases hanc : q.closestAncestor base (q.objs s).sessionId cache (q.objs s).client depth with
  | none => simp
  | some a => simp [hoffer]

/-! ### Runs -/

theorem step_of_polledStep {op : QueueOp} (h : q.polledStep (.queue op) = some q') :
    q.step op = some q' := by
  cases op with
  | releaseSession client sessionId promoteAt => simp [polledStep] at h
  | setSharedSpotKey s key => simp [polledStep] at h
  | _ => exact h

theorem Sound.polledStep (h : Sound cfg q) {l : PolledOp} (hstep : q.polledStep l = some q') :
    Sound cfg q' := by
  cases l with
  | queue op => exact h.step (step_of_polledStep hstep)
  | share s base cache depth =>
      obtain ⟨-, hq'⟩ := Option.ite_none_right_eq_some.mp hstep
      obtain rfl := Option.some.inj hq'
      exact managed_sound.cosmetic q s _ h (Session.cosmetic_sharing _)

/-- A polled operation that takes no spot away from under a running sub-agent keeps the
cover. -/
theorem Covered.polledStep (h : Covered q) (hsound : Sound cfg q) {l : PolledOp}
    (hstep : q.polledStep l = some q') (hkeeps : q.KeepsCover l) : Covered q' := by
  cases l with
  | share s base cache depth =>
      obtain ⟨-, hq'⟩ := Option.ite_none_right_eq_some.mp hstep
      obtain rfl := Option.some.inj hq'
      refine (h.share_iff s _).mpr fun hrun hown => ?_
      exact (q.resolvedSpot_mem_iff s base cache depth).mpr (hkeeps hrun hown)
  | queue op =>
      cases op with
      | admitQueued r path sessionAt queuedAt promoteAt =>
          obtain rfl := Option.some.inj hstep
          exact (h.append r path sessionAt queuedAt).tryPromote promoteAt
      | abandon e =>
          obtain ⟨-, hq'⟩ := Option.ite_none_right_eq_some.mp hstep
          obtain rfl := Option.some.inj hq'
          exact h.abandon e
      | release e now promoteAt =>
          obtain ⟨-, hq'⟩ := Option.ite_none_right_eq_some.mp hstep
          obtain rfl := Option.some.inj hq'
          exact (h.finish e now).tryPromote promoteAt
      | releaseSession client sessionId promoteAt => simp [EndpointQueue.polledStep] at hstep
      | tick now promoteAt =>
          obtain rfl := Option.some.inj hstep
          exact (tick_induction (I := fun q => Sound cfg q ∧ Covered q)
            (P := fun q key s => q.surrenders s now = true → ∀ s', ¬ q.Borrows s' key)
            (fun q key s hq hs hP => ⟨managed_sound.visit hq.1 hs now (promoteAt key),
              hq.2.visit hq.1 hs now (promoteAt key) hP⟩) hkeeps ⟨hsound, h⟩).2
      | setReady ready =>
          obtain rfl := Option.some.inj hstep
          exact h
      | tryPromote now =>
          obtain rfl := Option.some.inj hstep
          exact h.tryPromote now
      | setClientStatus s status detail at' =>
          obtain ⟨-, hq'⟩ := Option.ite_none_right_eq_some.mp hstep
          obtain rfl := Option.some.inj hq'
          exact h.modify (f := Session.reported status detail at') (fun _ => rfl) (fun _ => rfl)
            id rfl rfl
      | setSharedSpotKey s key => simp [EndpointQueue.polledStep] at hstep

/-- The spots the running sessions of the table run on. -/
def owners (q : EndpointQueue) : List Key :=
  (q.sessions.values.filter (fun s => 0 < (q.objs s).inflight)).filterMap
    (fun s => q.spotKey (q.objs s))

/-- There are no more spot owners than spots. -/
theorem owners_le (q : EndpointQueue) : q.owners.dedup.length ≤ q.spots.size := by
  rw [← OrdDict.length_keys]
  refine (List.subperm_of_subset (List.nodup_dedup _) ?_).length_le
  intro k hk
  obtain ⟨s, -, hs⟩ := List.mem_filterMap.mp (List.mem_dedup.mp hk)
  exact mem_spots_of_spotKey hs

/-- **Every running request is covered by a held spot**, in every run in which no
operation takes a spot away from under a running sub-agent. The requests in flight then
belong to at most `max_spots` spot owners. -/
theorem covered_of_run {ls : List PolledOp}
    (h : Run (Steps polledStep (fun q l => AcyclicParents l ∧ q.KeepsCover l))
      (EndpointQueue.init cfg) ls q) :
    (∀ s, 0 < (q.objs s).inflight → q.Usable s) ∧
    (∀ e ∈ q.running, ∃ k ∈ q.owners, q.spotKey (q.objs (q.sessionOf e)) = some k) ∧
    q.owners.dedup.length ≤ cfg.maxSpots := by
  obtain ⟨hsound, hcov⟩ := h.invariant (I := fun q => Sound cfg q ∧ Covered q)
    (fun _ _ _ hs hstep => ⟨hs.1.polledStep hstep.1, hs.2.polledStep hs.1 hstep.1 hstep.2.2⟩)
    ⟨Sound.init cfg, Covered.init cfg⟩
  refine ⟨hcov, ?_, ?_⟩
  · intro e he
    have hrun := hsound.accounts.inflight_pos he
    have hreg := hsound.registry.registered_of_mem_running hsound.accounts he
    obtain ⟨k, hk⟩ := Option.isSome_iff_exists.mp
      ((spotKey_isSome_iff q (q.sessionOf e)).mpr (hcov _ hrun))
    refine ⟨k, List.mem_filterMap.mpr ⟨q.sessionOf e, ?_, hk⟩, hk⟩
    exact List.mem_filter.mpr ⟨OrdDict.mem_values_iff.mpr ⟨_, hreg⟩, by simpa using hrun⟩
  · rw [← hsound.cfg_eq]
    exact Nat.le_trans q.owners_le hsound.registry.spots_le

/-- One spot, no limit per session. -/
def oneSpotUncapped : QueueConfig := .ofArgs 1 (-1) 300 600 false false

/-- A request of the session `id` of a known client. -/
def clientRequest (id : String) : Requester := ⟨"opencode", id, "api", "10.0.0.1", "opencode/1.0"⟩

/-- The machine the client runs on. -/
def clientBase : String := "http://10.0.0.1:4096"

/-- The session `c` is a sub-agent of `p`. -/
def parentCache : ParentCache :=
  (OrdDict.empty.insert (clientBase, "p") none).insert (clientBase, "c") (some "p")

theorem acyclic_parentCache : parentCache.Acyclic clientBase := by
  refine ParentCache.acyclic_of_rank (fun id => if id = "c" then 1 else 0) ?_
  intro parent child hparent
  have hmem := OrdDict.get?_eq_some_iff.mp hparent
  have hentries : parentCache.entries =
      [((clientBase, "p"), none), ((clientBase, "c"), some "p")] := by decide +kernel
  rw [hentries] at hmem
  simp only [List.mem_cons, Prod.mk.injEq, reduceCtorEq, and_false, Option.some.injEq,
    List.not_mem_nil, or_false, false_or] at hmem
  obtain ⟨⟨-, rfl⟩, rfl⟩ := hmem
  decide

/-- A session takes the only spot, and a request of its sub-agent arrives. -/
def subAgentArrives : List PolledOp :=
  [.queue (.setReady true), .queue (.admitQueued (clientRequest "p") "/x" 1 1 1),
    .queue (.admitQueued (clientRequest "c") "/x" 2 2 2)]

theorem covered_of_run_subAgent :
    ∃ q ls, Run (Steps polledStep (fun q l => AcyclicParents l ∧ q.KeepsCover l))
        (EndpointQueue.init oneSpotUncapped) ls q ∧
      q.running = [0, 1] ∧ q.owners.dedup.length ≤ oneSpotUncapped.maxSpots := by
  have hview : (exec polledStep (EndpointQueue.init oneSpotUncapped) subAgentArrives).map
      (fun q => (q.objs.next, (q.objs 1).client, (q.objs 1).inflight,
        ((q.setSharedSpotKey 1
          (q.resolvedSpot 1 clientBase parentCache 10)).tryPromote 3).running)) =
      some (2, "opencode", 0, [0, 1]) := by decide +kernel
  obtain ⟨q, hexec, hq⟩ := Option.map_eq_some_iff.mp hview
  obtain ⟨hnext, hq⟩ := Prod.mk.inj hq
  obtain ⟨hclient, hq⟩ := Prod.mk.inj hq
  obtain ⟨hin, hrunning⟩ := Prod.mk.inj hq
  have harrive : Run (Steps polledStep (fun q l => AcyclicParents l ∧ q.KeepsCover l))
      (EndpointQueue.init oneSpotUncapped) subAgentArrives q := by
    refine (run_of_exec (fun l => AcyclicParents l ∧ ∀ q, KeepsCover q l) hexec ?_).mono
      fun _ _ _ h => ⟨h.1, h.2.1, h.2.2 _⟩
    intro l hl
    simp only [subAgentArrives, List.mem_cons, List.not_mem_nil, or_false] at hl
    rcases hl with rfl | rfl | rfl <;> exact ⟨trivial, fun _ => trivial⟩
  have hshare : q.polledStep (.share 1 clientBase parentCache 10) =
      some (q.setSharedSpotKey 1 (q.resolvedSpot 1 clientBase parentCache 10)) :=
    if_pos ⟨by rw [hnext]; decide, by rw [hclient]; decide⟩
  have hidle : q.KeepsCover (.share 1 clientBase parentCache 10) :=
    fun hrun => absurd hrun (by rw [hin]; decide)
  have hpromote : ∀ q : EndpointQueue,
      Steps polledStep (fun q l => AcyclicParents l ∧ q.KeepsCover l)
        q (.queue (.tryPromote 3)) (q.tryPromote 3) := fun _ => ⟨rfl, trivial, trivial⟩
  have hrun := (harrive.snoc ⟨hshare, acyclic_parentCache, hidle⟩).snoc (hpromote _)
  exact ⟨_, _, hrun, hrunning, (covered_of_run hrun).2.2⟩

/-- The sub-agent starts on the spot of its parent and is still running when the
parent, whose own request has finished, has been idle for `session_expiry`; a third
session then takes the spot. -/
def spotSurrendered : List PolledOp :=
  subAgentArrives ++
    [.share 1 clientBase parentCache 10, .queue (.tryPromote 3), .queue (.release 0 4 4),
      .queue (.tick 5 (fun _ => 5)), .queue (.tick 605 (fun _ => 605)),
      .queue (.admitQueued (requester "x") "/x" 606 606 606)]

/-- Two lineages run on one spot, and the sub-agent's request is covered by none. -/
theorem covered_counterexample :
    ∃ q, Run (Steps polledStep (fun _ l => AcyclicParents l))
        (EndpointQueue.init oneSpotUncapped) spotSurrendered q ∧
      oneSpotUncapped.maxSpots = 1 ∧ q.running = [1, 2] ∧
      0 < (q.objs (q.sessionOf 1)).inflight ∧ ¬ q.Usable (q.sessionOf 1) := by
  have hview : (exec polledStep (EndpointQueue.init oneSpotUncapped) spotSurrendered).map
      (fun q => (q.running, (q.objs (q.sessionOf 1)).inflight,
        (q.spotKey (q.objs (q.sessionOf 1))).isSome)) = some ([1, 2], 1, false) := by
    decide +kernel
  obtain ⟨q, hexec, hq⟩ := Option.map_eq_some_iff.mp hview
  obtain ⟨hrunning, hq⟩ := Prod.mk.inj hq
  obtain ⟨hin, hspot⟩ := Prod.mk.inj hq
  refine ⟨q, run_of_exec _ hexec ?_, rfl, hrunning, by rw [hin]; decide, ?_⟩
  · intro l hl
    simp only [spotSurrendered, subAgentArrives, List.cons_append, List.nil_append,
      List.mem_cons, List.not_mem_nil, or_false] at hl
    rcases hl with rfl | rfl | rfl | rfl | rfl | rfl | rfl | rfl | rfl
    case inr.inr.inr.inl => exact acyclic_parentCache
    all_goals trivial
  · rw [← spotKey_isSome_iff, hspot]
    exact Bool.false_ne_true

end EndpointQueue

end Relay
