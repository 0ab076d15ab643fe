import Relay.Queue.Surrender

/-!
# Relay.Queue.SessionCap

**The cap on the requests a session has in flight** (`per_session_requests`). `_eligible`
consults the cap for a session that has a usable spot, and not for one that takes a free
spot. Two things follow.

A session may lose its usable spot while requests of it are in flight: its own by a manual
release, a shared one by a surrender. Its next request then takes a free spot whatever the
cap says, and this is the only way in which the cap is exceeded (`session_cap_iff`).

With a cap of zero, a session that has a usable spot may start nothing at all, also when it
has nothing in flight. From one request on, a cap never holds a request behind the idle spot
of its own session, and with zero it does (`serialized_iff`).
-/

namespace Relay

open Runs

/-- The number of requests that a session may have in flight under a cap `N ≥ 0`. -/
def QueueConfig.sessionCap (cfg : QueueConfig) : Int := max 1 cfg.maxInflightPerSession

namespace EndpointQueue

variable {q q' : EndpointQueue} {e : EntryRef} {now : Time} {cfg : QueueConfig}

/-! ### What changes through promotions only -/

/-- A promotion of `e` keeps `I` exactly when `P` allows it, a broken `I` stays broken, and
the other parts of a managed operation leave it as it is. -/
structure Metered (cfg : QueueConfig) (I : EndpointQueue → Prop)
    (P : EndpointQueue → EntryRef → Prop) : Prop where
  promote : ∀ q e now, q.cfg = cfg → I q → q.eligible e = true → (I (q.promote now e) ↔ P q e)
  broken : ∀ q e now, ¬ I q → ¬ I (q.promote now e)
  freeSpot : ∀ q key s, I (q.freeSpot s key) ↔ I q
  forget : ∀ q key, I { q with sessions := q.sessions.erase key } ↔ I q
  cosmetic : ∀ q s f, Session.Cosmetic f → (I { q with objs := q.objs.modify s f } ↔ I q)
  setReady : ∀ q ready, I { q with ready := ready } ↔ I q

namespace Metered

variable {I : EndpointQueue → Prop} {P : EndpointQueue → EntryRef → Prop}

theorem tryPromote_broken (h : Metered cfg I P) (hI : ¬ I q) (now : Time) :
    ¬ I (q.tryPromote now) :=
  tryPromote_induction (I := fun q => ¬ I q) (fun q e hq _ => h.broken q e now hq) hI

theorem tryPromote (h : Metered cfg I P) (hI : I q) (hcfg : q.cfg = cfg) (now : Time) :
    I (q.tryPromote now) ↔ ∀ p ∈ q.promotions now, P p.1 p.2 := by
  unfold EndpointQueue.tryPromote promotions
  split
  · refine Drain.drain_iff (J := fun q => q.cfg = cfg) ?_ ?_ ?_ q.queue.length q hcfg hI
    · intro q e q' hq hnext
      obtain ⟨-, rfl⟩ := promoteNext_eq_some hnext
      exact (promote_cfg q now e).trans hq
    · intro q e q' hq hI hnext
      obtain ⟨hfind, rfl⟩ := promoteNext_eq_some hnext
      exact h.promote q e now hq hI (List.find?_some hfind)
    · intro q e q' hI hnext
      obtain ⟨-, rfl⟩ := promoteNext_eq_some hnext
      exact h.broken q e now hI
  · simpa using hI

theorem recomputeAt (h : Metered cfg I P) (q : EndpointQueue) (s : SessionRef) (now : Time) :
    I (q.recomputeAt s now) ↔ I q :=
  h.cosmetic q s _ (Session.cosmetic_recompute q.cfg now)

theorem visit (h : Metered cfg I P) (hcfg : q.cfg = cfg) (hI : I q) (now : Time)
    (promoteAt : Key → Time) (key : Key) (s : SessionRef) :
    I (q.visit now (promoteAt key) key s).1 ↔
      ∀ p ∈ visitPromotions now promoteAt (q, key, s), P p.1 p.2 := by
  unfold visitPromotions
  rcases visit_cases q now (promoteAt key) key s with
    ⟨hsur, heq⟩ | ⟨hsur, -, -, -, heq⟩ | ⟨hsur, -, heq⟩
  · rw [heq, if_pos hsur]
    exact h.tryPromote ((h.freeSpot _ key s).mpr ((h.recomputeAt q s now).mpr hI)) hcfg _
  · have hsame : I (q.visit now (promoteAt key) key s).1 := by
      rw [heq]
      exact (h.forget (q.recomputeAt s now) key).mpr ((h.recomputeAt q s now).mpr hI)
    simpa [hsur] using hsame
  · have hsame : I (q.visit now (promoteAt key) key s).1 := by
      rw [heq]
      exact (h.recomputeAt q s now).mpr hI
    simpa [hsur] using hsame

theorem visit_broken (h : Metered cfg I P) (hI : ¬ I q) (now promoteAt : Time) (key : Key)
    (s : SessionRef) : ¬ I (q.visit now promoteAt key s).1 := by
  have hrec : ¬ I (q.recomputeAt s now) := fun h' => hI ((h.recomputeAt q s now).mp h')
  rcases visit_cases q now promoteAt key s with ⟨-, heq⟩ | ⟨-, -, -, -, heq⟩ | ⟨-, -, heq⟩
  · rw [heq]
    exact h.tryPromote_broken (fun h' => hrec ((h.freeSpot _ key s).mp h')) promoteAt
  · rw [heq]
    exact fun h' => hrec ((h.forget _ key).mp h')
  · rw [heq]
    exact hrec

theorem tickLoop_broken (h : Metered cfg I P) (now : Time) (promoteAt : Key → Time)
    (rest : List (Key × SessionRef)) (q : EndpointQueue) (hI : ¬ I q) :
    ¬ I (tickLoop now promoteAt q rest).1 := by
  induction rest generalizing q with
  | nil => exact hI
  | cons p rest ih => exact ih _ (h.visit_broken hI now (promoteAt p.1) p.1 p.2)

theorem tickLoop (h : Metered cfg I P) (now : Time) (promoteAt : Key → Time)
    (rest : List (Key × SessionRef)) (q : EndpointQueue) (hcfg : q.cfg = cfg) (hI : I q) :
    I (tickLoop now promoteAt q rest).1 ↔
      ∀ p ∈ (visitsOf now promoteAt q rest).flatMap (visitPromotions now promoteAt),
        P p.1 p.2 := by
  induction rest generalizing q with
  | nil => simpa [EndpointQueue.tickLoop, visitsOf] using hI
  | cons p rest ih =>
      obtain ⟨key, s⟩ := p
      have hvisit := h.visit hcfg hI now promoteAt key s
      show I (EndpointQueue.tickLoop now promoteAt (q.visit now (promoteAt key) key s).1 rest).1 ↔ _
      rw [visitsOf, List.flatMap_cons]
      simp only [List.mem_append, or_imp, forall_and]
      -- once a visit has broken `I`, no later one restores it
      by_cases hnext : I (q.visit now (promoteAt key) key s).1
      · rw [ih _ ((visit_cfg q now (promoteAt key) key s).trans hcfg) hnext]
        exact (and_iff_right (hvisit.mp hnext)).symm
      · refine iff_of_false (h.tickLoop_broken now promoteAt rest _ hnext) fun hall => ?_
        exact hnext (hvisit.mpr hall.1)

/-- A managed operation keeps `I` exactly when its promotions are allowed. -/
theorem step (h : Metered cfg I P) (hcfg : q.cfg = cfg) (hI : I q) {op : QueueOp}
    (hop : op.isManaged = true) (hstep : q.step op = some q') :
    I q' ↔ ∀ p ∈ q.promotionsOf op, P p.1 p.2 := by
  cases op with
  | admitQueued r path sessionAt queuedAt promoteAt => exact absurd hop Bool.false_ne_true
  | abandon e => exact absurd hop Bool.false_ne_true
  | release e now promoteAt => exact absurd hop Bool.false_ne_true
  | releaseSession client sessionId promoteAt =>
      obtain rfl := Option.some.inj hstep
      rcases releaseSession_cases q client sessionId promoteAt with ⟨s, hs, hheld, heq⟩ | ⟨hno, heq⟩
      · rw [heq, promotionsOf_releaseSession_of_held hs hheld]
        exact h.tryPromote ((h.freeSpot q _ s).mpr hI) hcfg promoteAt
      · rw [heq, promotionsOf_releaseSession_of_not_held hno]
        simpa using hI
  | tick now promoteAt =>
      obtain rfl := Option.some.inj hstep
      exact h.tickLoop now promoteAt q.sessions.entries q hcfg hI
  | setReady ready =>
      obtain rfl := Option.some.inj hstep
      simpa [promotionsOf] using (h.setReady q ready).mpr hI
  | tryPromote now =>
      obtain rfl := Option.some.inj hstep
      exact h.tryPromote hI hcfg now
  | setClientStatus s status detail at' =>
      obtain ⟨-, hq'⟩ := Option.ite_none_right_eq_some.mp hstep
      obtain rfl := Option.some.inj hq'
      have hset : I (q.setClientStatus s status detail at') :=
        (h.cosmetic q s _ (Session.cosmetic_reported status detail at')).mpr hI
      simpa [promotionsOf] using hset
  | setSharedSpotKey s key =>
      obtain ⟨-, hq'⟩ := Option.ite_none_right_eq_some.mp hstep
      obtain rfl := Option.some.inj hq'
      have hset : I (q.setSharedSpotKey s key) :=
        (h.cosmetic q s _ (Session.cosmetic_sharing key)).mpr hI
      simpa [promotionsOf] using hset

end Metered

/-! ### The cap is exceeded through a free spot only -/

/-- No session has more than `cap` requests in flight. -/
def Capped (cap : Int) (q : EndpointQueue) : Prop := ∀ s, (q.objs s).inflight ≤ cap

/-- A session that takes a free spot for the entry has room for it under the cap. -/
def RoomUnderCap (cap : Int) (q : EndpointQueue) (e : EntryRef) : Prop :=
  ¬ q.Usable (q.sessionOf e) → (q.objs (q.sessionOf e)).inflight < cap

/-- No promotion of the operation gives a free spot to a session that has lost its spot and
still has the cap in flight. -/
def RespectsCap (q : EndpointQueue) (op : QueueOp) : Prop :=
  ∀ p ∈ q.promotionsOf op, p.1.RoomUnderCap q.cfg.sessionCap p.2

instance (q : EndpointQueue) (s : SessionRef) : Decidable (q.Usable s) :=
  decidable_of_iff _ (spotKey_isSome_iff q s)

instance (cap : Int) (q : EndpointQueue) (e : EntryRef) : Decidable (q.RoomUnderCap cap e) :=
  inferInstanceAs (Decidable (¬ _ → _ < _))

instance (q : EndpointQueue) (op : QueueOp) : Decidable (q.RespectsCap op) :=
  inferInstanceAs (Decidable (∀ p ∈ q.promotionsOf op, _))

theorem Capped.modify_iff {cap : Int} {s : SessionRef} {f : Session → Session}
    (hf : ∀ x, (f x).inflight = x.inflight) (hobjs : q'.objs = q.objs.modify s f) :
    Capped cap q' ↔ Capped cap q := by
  have hin := Heap.modify_proj Session.inflight q.objs s f hf
  unfold Capped
  rw [hobjs]
  exact forall_congr' fun s' => by rw [hin s']

/-- `_eligible` consults the cap for a session that has a usable spot. -/
theorem belowCap_of_eligible (helig : q.eligible e = true) (husable : q.Usable (q.sessionOf e)) :
    q.BelowCap (q.sessionOf e) := by
  unfold eligible at helig
  unfold BelowCap
  split at helig
  · exact absurd helig Bool.false_ne_true
  · rw [if_pos ((spotKey_isSome_iff q _).mpr husable)] at helig
    split at helig
    · rename_i hneg
      exact Or.inl hneg
    · exact Or.inr (of_decide_eq_true helig)

theorem promote_inflight (q : EndpointQueue) (now : Time) (e : EntryRef) (s : SessionRef) :
    ((q.promote now e).objs s).inflight =
      if s = q.sessionOf e then (q.objs s).inflight + 1 else (q.objs s).inflight := by
  rw [promote_objs, Heap.modify_apply]
  split
  · rename_i h
    rw [h]
    rfl
  · rfl

theorem metered_capped (hcap : 0 ≤ cfg.maxInflightPerSession) :
    Metered cfg (Capped cfg.sessionCap) (RoomUnderCap cfg.sessionCap) where
  promote := by
    intro q e now hcfg hcapped helig
    have hothers : Capped cfg.sessionCap (q.promote now e) ↔
        (q.objs (q.sessionOf e)).inflight + 1 ≤ cfg.sessionCap := by
      constructor
      · intro h
        have hself := h (q.sessionOf e)
        rwa [promote_inflight, if_pos rfl] at hself
      · intro h s
        rw [promote_inflight]
        split
        · rename_i hs
          rwa [hs]
        · exact hcapped s
    rw [hothers, RoomUnderCap]
    by_cases husable : q.Usable (q.sessionOf e)
    · -- the cap has been consulted
      have hbelow := belowCap_of_eligible helig husable
      rw [BelowCap, hcfg] at hbelow
      have hle := le_max_right 1 cfg.maxInflightPerSession
      unfold QueueConfig.sessionCap
      exact iff_of_true (by omega) fun h => absurd husable h
    -- the spot is free, and the cap has not been consulted
    · simp only [husable, not_false_eq_true, true_imp_iff]
      omega
  broken := by
    intro q e now hbroken hcapped
    refine hbroken fun s => ?_
    have hs := hcapped s
    rw [promote_inflight] at hs
    split at hs <;> omega
  freeSpot := fun q key s =>
    Capped.modify_iff (f := Session.spotless) (fun _ => rfl) (freeSpot_objs q s key)
  forget := fun _ _ => Iff.rfl
  cosmetic := fun _ _ _ hf => Capped.modify_iff hf.inflight rfl
  setReady := fun _ _ => Iff.rfl

theorem Capped.abandon {cap : Int} (h : Capped cap q) (e : EntryRef) :
    Capped cap (q.abandon e) := by
  unfold EndpointQueue.abandon
  split
  · exact h
  · exact (Capped.modify_iff (q := q) (f := Session.unqueued) (fun _ => rfl) rfl).mpr h

theorem Capped.finish {cap : Int} (h : Capped cap q) (e : EntryRef) (now : Time) :
    Capped cap (q.finish e now) := by
  intro s
  rw [finish_objs, Heap.modify_apply]
  split
  · rename_i hs
    have hle := h s
    rw [← hs]
    show (if 0 < (q.objs s).inflight then _ else _) ≤ cap
    split <;> omega
  · exact h s

theorem Capped.getOrCreateSession {cap : Int} (h : Capped cap q) (hcap : 0 ≤ cap) (r : Requester)
    (now : Time) : Capped cap (q.getOrCreateSession r now).2 := by
  unfold EndpointQueue.getOrCreateSession
  split
  · intro s
    show (q.objs.alloc (Session.new r now) s).inflight ≤ cap
    by_cases hs : s = q.objs.next
    · rw [hs, Heap.alloc_self]
      exact hcap
    · rw [Heap.alloc_of_ne _ _ hs]
      exact h s
  · rename_i s _
    exact (Capped.modify_iff (q := q) (s := s) (f := Session.revive r now) (fun _ => rfl)
      rfl).mpr h

/-- A step of a capped queue leaves it capped exactly when it respects the cap. -/
theorem capped_step_iff (hcap : 0 ≤ cfg.maxInflightPerSession) (hcfg : q.cfg = cfg)
    (h : Capped cfg.sessionCap q) {op : QueueOp} (hop : q.step op = some q') :
    Capped cfg.sessionCap q' ↔ q.RespectsCap op := by
  have hmetered := metered_capped hcap
  rw [RespectsCap, hcfg]
  cases op with
  | admitQueued r path sessionAt queuedAt promoteAt =>
      obtain rfl := Option.some.inj hop
      have hnonneg : 0 ≤ cfg.sessionCap := le_trans zero_le_one (le_max_left _ _)
      have hcreated := h.getOrCreateSession hnonneg r sessionAt
      have happended : Capped cfg.sessionCap ((q.prepare r path sessionAt queuedAt).2.append
          (q.prepare r path sessionAt queuedAt).1) :=
        (Capped.modify_iff (f := Session.queued _) (fun _ => rfl) (append_objs _ _)).mpr hcreated
      exact hmetered.tryPromote happended
        ((getOrCreateSession_cfg q r sessionAt).trans hcfg) promoteAt
  | abandon e =>
      obtain ⟨-, hq'⟩ := Option.ite_none_right_eq_some.mp hop
      obtain rfl := Option.some.inj hq'
      simpa [promotionsOf] using h.abandon e
  | release e now promoteAt =>
      obtain ⟨-, hq'⟩ := Option.ite_none_right_eq_some.mp hop
      obtain rfl := Option.some.inj hq'
      exact hmetered.tryPromote (h.finish e now) hcfg promoteAt
  | _ => exact hmetered.step hcfg h rfl hop

/-- **When the cap holds.** Over a run of atomic operations under a cap `N ≥ 0`, every session
has at most `max 1 N` requests in flight in every state the run goes through, exactly when no
promotion gives a free spot to a session that has `max 1 N` requests in flight already. -/
theorem session_cap_iff (hcap : 0 ≤ cfg.maxInflightPerSession) {ops : List QueueOp}
    (h : Run (Steps step Any) (EndpointQueue.init cfg) ops q) :
    (∀ ops₁ q₁, ops₁ <+: ops → exec step (EndpointQueue.init cfg) ops₁ = some q₁ →
      ∀ s, (q₁.objs s).inflight ≤ max 1 cfg.maxInflightPerSession) ↔
    Run (Steps step RespectsCap) (EndpointQueue.init cfg) ops q := by
  refine states_iff (I := Capped cfg.sessionCap) (J := Sound cfg) (fun _ _ _ hs hop => hs.step hop)
    (fun q op q' hs hI hop => capped_step_iff hcap hs.cfg_eq hI hop) h (.init cfg) fun _ => ?_
  exact le_trans zero_le_one (le_max_left _ _)

/-- One spot, at most one request of a session at a time. -/
def oneSpotOneRequest : QueueConfig := .ofArgs 1 1 300 600 false false

/-- A session has a request in flight and one that waits, and its spot is released. -/
def releasedWhileRunning : List QueueOp :=
  [.setReady true, .admitQueued (requester "a") "/x" 1 1 1, .admitQueued (requester "a") "/y" 2 2 2,
    .releaseSession "unknown" "a" 3]

/-- A session that finished its requests is released, and comes back. -/
def releasedWhenIdle : List QueueOp :=
  [.setReady true, .admitQueued (requester "a") "/x" 1 1 1, .release 0 2 2,
    .releaseSession "unknown" "a" 3, .admitQueued (requester "a") "/y" 4 4 4]

theorem session_cap_iff_releasedWhenIdle :
    ∃ q, exec step (EndpointQueue.init oneSpotOneRequest) releasedWhenIdle = some q ∧
      q.running = [1] ∧ ∀ s, (q.objs s).inflight ≤ 1 := by
  have hview : (exec (guarded step RespectsCap) (EndpointQueue.init oneSpotOneRequest)
      releasedWhenIdle).map running = some [1] := by
    decide +kernel
  obtain ⟨q, hexec, hrunning⟩ := Option.map_eq_some_iff.mp hview
  have hrun := run_of_exec_guarded hexec
  have hany : Run (Steps step Any) (EndpointQueue.init oneSpotOneRequest) releasedWhenIdle q :=
    run_any_of_exec (exec_of_run hrun)
  have hcapped := (session_cap_iff (by decide) hany).mpr hrun _ q (List.prefix_refl _)
    (exec_of_run hrun)
  exact ⟨q, exec_of_run hrun, hrunning, hcapped⟩

/-- The second request takes the free spot beside the first. -/
theorem session_cap_counterexample :
    ¬ ∀ (cfg : QueueConfig) (ops : List QueueOp) (q : EndpointQueue),
      0 ≤ cfg.maxInflightPerSession → Run (Steps step Any) (EndpointQueue.init cfg) ops q →
      ∀ s, (q.objs s).inflight ≤ max 1 cfg.maxInflightPerSession := by
  intro hclaim
  have hview : (exec step (EndpointQueue.init oneSpotOneRequest) releasedWhileRunning).map
      (fun q => (q.objs 0).inflight) = some 2 := by
    decide +kernel
  obtain ⟨q, hexec, hinflight⟩ := Option.map_eq_some_iff.mp hview
  have hle := hclaim oneSpotOneRequest _ q (by decide) (run_any_of_exec hexec) 0
  rw [hinflight] at hle
  exact absurd hle (by decide)

/-! ### A session behind its own idle spot -/

/-- A session that has a usable spot and room under the cap has no waiting entry. -/
def NoSelfBlock (q : EndpointQueue) : Prop :=
  ∀ s, q.Usable s → (q.objs s).inflight < q.cfg.sessionCap → ∀ e ∈ q.queue, q.sessionOf e ≠ s

/-- Where no waiting entry may run, none waits behind its own session's spot, under a cap of
one request or more. -/
theorem Exhausted.noSelfBlock (h : q.Exhausted) (hparallel : q.cfg.atomicRequests = false)
    (hcap : 1 ≤ q.cfg.maxInflightPerSession) : q.NoSelfBlock := by
  rintro s husable hbelow e he rfl
  refine h e he ⟨fun hatomic => ?_, Or.inl ⟨husable, Or.inr ?_⟩⟩
  · rw [hparallel] at hatomic
    exact absurd hatomic Bool.false_ne_true
  · rwa [QueueConfig.sessionCap, max_eq_right hcap] at hbelow

theorem tryPromote_of_none (h : ∀ e ∈ q.queue, q.eligible e = false) (now : Time) :
    q.tryPromote now = q := by
  have hnone := (promoteNext_eq_none (q := q) now).mpr h
  unfold tryPromote
  split
  · cases q.queue.length with
    | zero => rfl
    | succ n => rw [Drain.drain, hnone]
  · rfl

theorem tryPromote_of_single (hready : q.ready = true) (hqueue : q.queue = [e])
    (helig : q.eligible e = true) (now : Time) : q.tryPromote now = q.promote now e := by
  have hnext : promoteNext now q = some (e, q.promote now e) := by
    simp [promoteNext, hqueue, helig]
  rw [tryPromote, if_pos hready, hqueue]
  simp [Drain.drain, hnext]

theorem step_release (he : e ∈ q.running) (now promoteAt : Time) :
    q.step (.release e now promoteAt) = some ((q.finish e now).tryPromote promoteAt) :=
  if_pos he

/-- A first request has arrived at a ready queue. -/
def firstArrived (cfg : QueueConfig) (r : Requester) : EndpointQueue :=
  let prepared := prepare { init cfg with ready := true } r "/x" 1 1
  prepared.2.append prepared.1

/-- It runs, and a second request of its session has arrived. -/
def secondArrived (cfg : QueueConfig) : EndpointQueue :=
  let prepared := ((firstArrived cfg (requester "a")).promote 1 0).prepare (requester "a") "/y" 2 2
  prepared.2.append prepared.1

/-- Two requests of a session arrive. -/
def twoRequests : List QueueOp :=
  [.setReady true, .admitQueued (requester "a") "/x" 1 1 1, .admitQueued (requester "a") "/y" 2 2 2]

theorem firstArrived_eligible (cfg : QueueConfig) (r : Requester) :
    (firstArrived cfg r).eligible 0 = true := by
  have hcfg : (firstArrived cfg r).cfg = cfg := rfl
  have hspots : (firstArrived cfg r).spots = .empty := rfl
  have htotal : (firstArrived cfg r).inflightTotal = 0 := rfl
  have hshared :
      ((firstArrived cfg r).objs ((firstArrived cfg r).sessionOf 0)).sharedSpotKey = none := rfl
  have hroom := cfg.maxSpots_pos
  simp [eligible, spotKey, hcfg, hspots, hshared, htotal]
  omega

theorem firstArrived_sound (cfg : QueueConfig) (r : Requester) : Sound cfg (firstArrived cfg r) :=
  (managed_sound.setReady _ true (.init cfg)).append r "/x" 1 1

theorem firstArrived_selected (cfg : QueueConfig) (r : Requester) :
    Selected (firstArrived cfg r) 0 := by
  have hqueue : (firstArrived cfg r).queue = [0] := rfl
  refine ⟨rfl, ?_⟩
  simp [hqueue, firstArrived_eligible cfg r]

/-- It takes a spot. -/
theorem firstArrived_tryPromote (cfg : QueueConfig) (r : Requester) (now : Time) :
    (firstArrived cfg r).tryPromote now = (firstArrived cfg r).promote now 0 :=
  tryPromote_of_single rfl rfl (firstArrived_eligible cfg r) now

theorem secondArrived_sound (cfg : QueueConfig) : Sound cfg (secondArrived cfg) :=
  (managed_sound.promote _ 0 1 (firstArrived_sound cfg (requester "a"))
    (firstArrived_selected cfg (requester "a"))).append (requester "a") "/y" 2 2

theorem secondArrived_queue (cfg : QueueConfig) : (secondArrived cfg).queue = [1] := rfl

theorem secondArrived_sessionOf (cfg : QueueConfig) : (secondArrived cfg).sessionOf 1 = 0 := rfl

theorem secondArrived_running (cfg : QueueConfig) : (secondArrived cfg).running = [0] := rfl

theorem secondArrived_usable (cfg : QueueConfig) : (secondArrived cfg).Usable 0 := by
  have hkeys : (secondArrived cfg).spots.keys = [("unknown", "a")] := rfl
  refine Or.inl ?_
  show ("unknown", "a") ∈ (secondArrived cfg).spots.keys
  rw [hkeys]
  exact List.mem_singleton_self _

theorem finish_usable (q : EndpointQueue) (e : EntryRef) (now : Time) (s : SessionRef) :
    (q.finish e now).Usable s ↔ q.Usable s := by
  have hkey := Heap.modify_proj Session.key q.objs (q.sessionOf e) (Session.finished now)
    (fun _ => rfl) s
  have hshared := Heap.modify_proj Session.sharedSpotKey q.objs (q.sessionOf e)
    (Session.finished now) (fun _ => rfl) s
  unfold Usable
  rw [finish_objs, hkey, hshared]
  rfl

theorem finish_sessionOf (q : EndpointQueue) (e : EntryRef) (now : Time) :
    (q.finish e now).sessionOf = q.sessionOf := rfl

theorem finish_queue (q : EndpointQueue) (e : EntryRef) (now : Time) :
    (q.finish e now).queue = q.queue := rfl

/-- With a cap of zero, a waiting entry whose session has a usable spot waits on. -/
theorem tryPromote_of_zero (hsound : Sound cfg q) (hzero : cfg.maxInflightPerSession = 0)
    (husable : ∀ e ∈ q.queue, q.Usable (q.sessionOf e)) (now : Time) : q.tryPromote now = q := by
  refine tryPromote_of_none (fun e he => ?_) now
  rw [← Bool.not_eq_true]
  intro helig
  have hbelow := belowCap_of_eligible helig (husable e he)
  have hnonneg := hsound.accounts.inflight_nonneg (q.sessionOf e)
  rw [BelowCap, hsound.cfg_eq, hzero] at hbelow
  omega

/-- With a cap of zero, a second request of a session stays behind the idle spot. -/
theorem selfBlock_of_zero (hzero : cfg.maxInflightPerSession = 0) :
    exec step (EndpointQueue.init cfg) twoRequests = some (secondArrived cfg) ∧
      (secondArrived cfg).step (.release 0 3 3) = some ((secondArrived cfg).finish 0 3) ∧
      ¬ ((secondArrived cfg).finish 0 3).NoSelfBlock := by
  have hsound := secondArrived_sound cfg
  have hrun : 0 ∈ (secondArrived cfg).running := by simp [secondArrived_running]
  have hdone := hsound.finish hrun 3
  have hsession := secondArrived_sessionOf cfg
  have husable : ∀ e ∈ (secondArrived cfg).queue,
      (secondArrived cfg).Usable ((secondArrived cfg).sessionOf e) := by
    simp [secondArrived_queue, hsession, secondArrived_usable]
  have husable' : ∀ e ∈ ((secondArrived cfg).finish 0 3).queue,
      ((secondArrived cfg).finish 0 3).Usable (((secondArrived cfg).finish 0 3).sessionOf e) := by
    intro e he
    rw [finish_sessionOf, finish_usable]
    rw [finish_queue] at he
    exact husable e he
  refine ⟨?_, ?_, ?_⟩
  -- the second admission runs the promotion loop, which the cap of zero stops
  · have hrest := tryPromote_of_zero hsound hzero husable 2
    show some ((((
      (firstArrived cfg (requester "a")).tryPromote 1).prepare (requester "a") "/y" 2 2).2.append
      (((firstArrived cfg (requester "a")).tryPromote 1).prepare (requester "a") "/y" 2 2).1
      ).tryPromote 2) = _
    rw [firstArrived_tryPromote]
    exact congrArg some hrest
  · rw [step_release hrun, tryPromote_of_zero hdone hzero husable']
  · intro hclaim
    -- nothing of the session is in flight, its spot is held, and its entry waits
    have hidle : (((secondArrived cfg).finish 0 3).objs 0).inflight = 0 := by
      have hnone : ((secondArrived cfg).finish 0 3).running = [] := rfl
      simp [hdone.accounts.inflight_eq, runningCount, hnone]
    have hwaits : 1 ∈ ((secondArrived cfg).finish 0 3).queue := by
      simp [finish_queue, secondArrived_queue]
    have hroom : (((secondArrived cfg).finish 0 3).objs 0).inflight
        < ((secondArrived cfg).finish 0 3).cfg.sessionCap := by
      rw [hidle]
      exact lt_of_lt_of_le Int.one_pos (le_max_left _ _)
    have hspot := (finish_usable _ 0 3 0).mpr (secondArrived_usable cfg)
    have hblocked := hclaim 0 hspot hroom 1 hwaits
    rw [finish_sessionOf] at hblocked
    exact hblocked hsession

/-- After every enqueue, release and surrender on a ready queue, no session with a usable spot
and room under the cap has a waiting entry. -/
def NeverSelfBlocks (cfg : QueueConfig) : Prop :=
  ∀ (ops : List QueueOp) (op : QueueOp) (q q' : EndpointQueue),
    Run (Steps step Any) (EndpointQueue.init cfg) ops q → q.step op = some q' → q.ready = true →
    (q.PromotesAfter op → q'.NoSelfBlock) ∧
    ∀ now promoteAt, op = .tick now promoteAt → ∀ v ∈ q.visits now promoteAt,
      v.1.surrenders v.2.2 now = true →
      (v.1.visit now (promoteAt v.2.1) v.2.1 v.2.2).1.NoSelfBlock

/-- **Serialized sessions.** In parallel mode with a cap `N ≥ 0`, no session ever waits behind
its own spot with room under the cap, exactly when `N` is at least one. -/
theorem serialized_iff (hparallel : cfg.atomicRequests = false)
    (hcap : 0 ≤ cfg.maxInflightPerSession) :
    NeverSelfBlocks cfg ↔ 1 ≤ cfg.maxInflightPerSession := by
  constructor
  · intro hclaim
    by_contra hlt
    have hzero : cfg.maxInflightPerSession = 0 := by omega
    obtain ⟨hexec, hstep, hblocked⟩ := selfBlock_of_zero hzero
    exact hblocked ((hclaim _ _ _ _ (run_any_of_exec hexec) hstep rfl).1 trivial)
  · intro hone ops op q q' hrun hop hready
    have hsound := sound_of_run hrun
    have hcfg : ∀ {q : EndpointQueue}, q.cfg = cfg → q.Exhausted → q.NoSelfBlock := by
      intro q hq h
      refine h.noSelfBlock ?_ ?_
      · rw [hq, hparallel]
      · rw [hq]
        exact hone
    refine ⟨fun hpromotes => hcfg (hsound.step hop).cfg_eq
      (hsound.exhausted_step hop hready hpromotes), ?_⟩
    intro now promoteAt _ v hv hsur
    obtain ⟨hv', hr, hs⟩ := hsound.visits_ready hready now promoteAt v hv
    exact hcfg ((visit_cfg _ _ _ _ _).trans hv'.cfg_eq)
      (hv'.exhausted_visit hr hs now (promoteAt v.2.1) hsur)

theorem serialized_iff_oneSpotOneRequest : NeverSelfBlocks oneSpotOneRequest :=
  (serialized_iff rfl (by decide)).mpr (by decide)

/-- One spot, strictly serialized sessions. -/
def oneSpotSerialized : QueueConfig := .ofArgs 1 0 300 600 false false

/-- The second request of a session waits on when the first has finished. -/
theorem serialized_counterexample :
    ¬ ∀ cfg : QueueConfig, cfg.atomicRequests = false → 0 ≤ cfg.maxInflightPerSession →
      NeverSelfBlocks cfg := by
  intro hclaim
  have hzero : oneSpotSerialized.maxInflightPerSession = 0 := rfl
  obtain ⟨hexec, hstep, hblocked⟩ := selfBlock_of_zero hzero
  exact hblocked ((hclaim _ rfl (by decide) _ _ _ _ (run_any_of_exec hexec) hstep rfl).1 trivial)

end EndpointQueue

end Relay
