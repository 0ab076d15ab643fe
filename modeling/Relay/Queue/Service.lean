import Relay.Queue.Refinement
import Relay.Queue.Surrender

/-!
# Relay.Queue.Service

**No request is stuck.** From every reachable state of a ready queue, the requests in flight
finishing and the manager ticking on are enough for every waiting request to start: nobody has to
give up, no administrator has to release a session, and no client has to report anything.

The measure is the work left in the scheduler of `Relay.Queue.Refinement`: a release and a
surrender lower it, a promotion lowers it, and a tick never raises it. What remains is that a
queue with nothing in flight either starts a request or has a spot to surrender, which the second
of two late ticks does (`due_of_rest`).
-/

namespace Relay

open Runs

/-- A release of an entry, a tick, or a promotion loop, at the clock reading `t`. -/
def QueueOp.Closing (t : Time) : QueueOp → Prop
  | .release _ now promoteAt => now = t ∧ promoteAt = t
  | .tick now promoteAt => now = t ∧ ∀ key, promoteAt key = t
  | .tryPromote now => now = t
  | _ => False

/-- Such operations one after another, at clock readings that do not go back, from `T` to `t`. -/
def QueueOp.ClosingFrom : Time → List QueueOp → Time → Prop
  | T, [], t => T ≤ t
  | T, op :: ops, t => ∃ now, T ≤ now ∧ op.Closing now ∧ ClosingFrom now ops t

namespace QueueOp.ClosingFrom

variable {T T' t t' : Time} {ops ops' : List QueueOp}

theorem mono (h : ClosingFrom T' ops t) (hle : T ≤ T') : ClosingFrom T ops t := by
  cases ops with
  | nil => exact hle.trans h
  | cons op ops =>
      obtain ⟨now, hnow, hop, hops⟩ := h
      exact ⟨now, hle.trans hnow, hop, hops⟩

theorem append (h : ClosingFrom T ops t) (h' : ClosingFrom t ops' t') :
    ClosingFrom T (ops ++ ops') t' := by
  induction ops generalizing T with
  | nil => exact h'.mono h
  | cons op ops ih =>
      obtain ⟨now, hnow, hop, hops⟩ := h
      exact ⟨now, hnow, hop, ih hops⟩

/-- One operation alone. -/
theorem single {op : QueueOp} (h : op.Closing T) : ClosingFrom T [op] T :=
  ⟨T, le_refl T, h, le_refl T⟩

theorem closing (h : ClosingFrom T ops t) : ∀ op ∈ ops, ∃ now, op.Closing now := by
  induction ops generalizing T with
  | nil => exact fun _ hmem => absurd hmem List.not_mem_nil
  | cons op ops ih =>
      obtain ⟨now, -, hop, hops⟩ := h
      exact List.forall_mem_cons.mpr ⟨⟨now, hop⟩, ih hops⟩

end QueueOp.ClosingFrom

/-! ### A session at rest -/

namespace Session

variable {cfg : QueueConfig} {x : Session} {t : Time}

/-- The session has nothing in flight, and neither a report nor the busy window vouches for it
at `t`. -/
structure AtRest (cfg : QueueConfig) (t : Time) (x : Session) : Prop where
  inflight : x.inflight = 0
  unreported : x.clientStatusAt + statusUnreachableGrace ≤ t
  past : x.lastRequestAt + cfg.busyWindow ≤ t

theorem AtRest.later (h : AtRest cfg t x) {t' : Time} (hle : t ≤ t') : AtRest cfg t' x :=
  ⟨h.inflight, h.unreported.trans hle, h.past.trans hle⟩

theorem AtRest.currentStatus (h : AtRest cfg t x) : x.currentStatus cfg t = (.idle, "") := by
  have hidle : ¬ 0 < x.inflight := by
    rw [h.inflight]
    exact lt_irrefl 0
  have hreport : ¬ t - x.clientStatusAt < statusUnreachableGrace := by
    have := h.unreported
    rw [not_lt]
    exact le_sub_iff_add_le'.mpr this
  have hwindow : ¬ t - x.lastRequestAt < cfg.busyWindow := by
    have := h.past
    rw [not_lt]
    exact le_sub_iff_add_le'.mpr this
  unfold Session.currentStatus
  rw [if_neg hidle]
  by_cases hclient : x.client ≠ "unknown"
  · rw [if_pos hclient]
    cases x.clientStatus with
    | none => rfl
    | some st => exact if_neg hreport
  · rw [if_neg hclient]
    exact if_neg hwindow

theorem AtRest.recompute (h : AtRest cfg t x) :
    x.recompute cfg t =
      { x with status := .idle, statusDetail := "", idleSince := x.idleSince.or (some t) } := by
  unfold Session.recompute
  rw [h.currentStatus]
  simp

theorem due_of_deadline (h : ∃ deadline, x.releaseDeadline cfg t = some deadline ∧ deadline ≤ t) :
    x.due cfg t = true := by
  obtain ⟨deadline, heq, hle⟩ := h
  rw [due, heq]
  exact decide_eq_true hle

/-- The second of two ticks that find a session at rest surrenders its spot, if it comes late
enough. -/
theorem due_of_rest (h : AtRest cfg t x) :
    ∃ late, t ≤ late ∧ ∀ t' ≥ late, ((x.recompute cfg t).recompute cfg t').due cfg t' = true := by
  obtain ⟨since, hsince⟩ : ∃ since, x.idleSince.or (some t) = some since := by
    cases x.idleSince with
    | none => exact ⟨t, rfl⟩
    | some since => exact ⟨since, rfl⟩
  refine ⟨max t (max (since + max 0 cfg.sessionExpiry)
    (x.lastRequestAt + max cfg.busyWindow cfg.sessionExpiry)), le_max_left _ _, fun t' ht' => ?_⟩
  have ht : t ≤ t' := (le_max_left _ _).trans ht'
  have hknown : since + max 0 cfg.sessionExpiry ≤ t' :=
    (le_max_left _ _).trans ((le_max_right _ _).trans ht')
  have hunknown : x.lastRequestAt + max cfg.busyWindow cfg.sessionExpiry ≤ t' :=
    (le_max_right _ _).trans ((le_max_right _ _).trans ht')
  have hrest : AtRest cfg t' (x.recompute cfg t) := by
    rw [h.recompute]
    exact ⟨h.inflight, (h.later ht).unreported, (h.later ht).past⟩
  rw [hrest.recompute, h.recompute, hsince]
  have hin : ¬ 0 < x.inflight := by
    rw [h.inflight]
    exact lt_irrefl 0
  have hexpiry : since + cfg.sessionExpiry ≤ t' :=
    (add_le_add_right (le_max_right 0 cfg.sessionExpiry) since).trans hknown
  have hsince' : since ≤ t' :=
    (le_add_of_nonneg_right (le_max_left 0 cfg.sessionExpiry)).trans hknown
  -- an idle report that is still fresh only brings the deadline forward
  have hdeadline : ∀ (c : Prop) [Decidable c], ∃ deadline,
      (if c then some since else some (since + cfg.sessionExpiry)) = some deadline ∧
        deadline ≤ t' := by
    intro c _
    split
    · exact ⟨since, rfl, hsince'⟩
    · exact ⟨_, rfl, hexpiry⟩
  refine due_of_deadline ?_
  unfold releaseDeadline
  simp only [if_neg hin, Option.some_or]
  by_cases hclient : x.client ≠ "unknown"
  · simp only [if_pos hclient]
    exact hdeadline _
  · simp only [if_neg hclient]
    exact ⟨_, rfl, hunknown⟩

end Session

namespace EndpointQueue

variable {cfg : QueueConfig} {q q' : EndpointQueue} {e : EntryRef} {s : SessionRef} {now T : Time}
  {promoteAt : Key → Time}

/-! ### A tick that surrenders nothing -/

theorem visit_quiet {key : Key} (h : q.surrenders s now = false) :
    (q.visit now (promoteAt key) key s).1.objs =
      q.objs.modify s (Session.recompute q.cfg now) := by
  rcases visit_cases q now (promoteAt key) key s with ⟨hsur, -⟩ | ⟨-, -, -, -, heq⟩ | ⟨-, -, heq⟩
  · exact absurd (hsur.symm.trans h) Bool.noConfusion
  · rw [heq]
    rfl
  · rw [heq]
    rfl

/-- It finds every session as it was before the tick, and leaves it with its status recomputed. -/
theorem tickLoop_quiet (rest : List (Key × SessionRef)) (q : EndpointQueue)
    (hquiet : ∀ v ∈ visitsOf now promoteAt q rest, v.1.surrenders v.2.2 now = false)
    (hnd : (rest.map Prod.snd).Nodup) :
    (∀ v ∈ visitsOf now promoteAt q rest, v.1.objs v.2.2 = q.objs v.2.2 ∧ v.1.cfg = q.cfg) ∧
      ∀ s, (tickLoop now promoteAt q rest).1.objs s =
        if s ∈ rest.map Prod.snd then (q.objs s).recompute q.cfg now else q.objs s := by
  induction rest generalizing q with
  | nil => exact ⟨fun v hv => absurd hv List.not_mem_nil, fun s => rfl⟩
  | cons p rest ih =>
      obtain ⟨key, s⟩ := p
      obtain ⟨hs, hnd⟩ : s ∉ rest.map Prod.snd ∧ (rest.map Prod.snd).Nodup := List.nodup_cons.mp hnd
      have hobjs : (q.visit now (promoteAt key) key s).1.objs =
          q.objs.modify s (Session.recompute q.cfg now) :=
        visit_quiet (hquiet (q, key, s) List.mem_cons_self)
      have hcfg := visit_cfg q now (promoteAt key) key s
      obtain ⟨hfound, hleft⟩ := ih _ (fun v hv => hquiet v (List.mem_cons_of_mem _ hv)) hnd
      have hother : ∀ s' ≠ s, (q.visit now (promoteAt key) key s).1.objs s' = q.objs s' := by
        intro s' hs'
        rw [hobjs]
        exact Heap.modify_of_ne _ _ hs'
      constructor
      · intro v hv
        rcases List.mem_cons.mp hv with rfl | hv
        · exact ⟨rfl, rfl⟩
        · have hrest : v.2 ∈ rest := by
            rw [← visitsOf_map_snd now promoteAt rest (q.visit now (promoteAt key) key s).1]
            exact List.mem_map_of_mem hv
          obtain ⟨hobj, hcfg'⟩ := hfound v hv
          have hne : v.2.2 ≠ s := fun heq => hs (heq ▸ List.mem_map_of_mem hrest)
          exact ⟨hobj.trans (hother _ hne), hcfg'.trans hcfg⟩
      · intro s'
        change (tickLoop now promoteAt (q.visit now (promoteAt key) key s).1 rest).1.objs s' = _
        rw [hleft, hcfg, List.map_cons]
        by_cases heq : s' = s
        · rw [heq, if_neg hs, if_pos List.mem_cons_self, hobjs, Heap.modify_self]
        · have hmem : s' ∈ s :: rest.map Prod.snd ↔ s' ∈ rest.map Prod.snd := by
            rw [List.mem_cons, or_iff_right heq]
          rw [hother s' heq]
          exact if_congr hmem.symm rfl rfl

/-! ### The work that is left -/

/-- The releases and surrenders of an operation. -/
def endsOf (q : EndpointQueue) : QueueOp → Nat
  | .release .. => 1
  | .tick now promoteAt => (q.visits now promoteAt).countP (fun v => v.1.surrenders v.2.2 now)
  | _ => 0

theorem countP_works_visitLabels (v : EndpointQueue × Key × SessionRef) :
    (visitLabels now v).countP Slots.Label.works = if v.1.surrenders v.2.2 now then 1 else 0 := by
  unfold visitLabels
  dsimp only
  split
  · rfl
  · split <;> rfl

theorem countP_works_visits (visits : List (EndpointQueue × Key × SessionRef)) :
    (visits.flatMap (visitLabels now)).countP Slots.Label.works =
      visits.countP (fun v => v.1.surrenders v.2.2 now) := by
  induction visits with
  | nil => rfl
  | cons v visits ih =>
      rw [List.flatMap_cons, List.countP_append, countP_works_visitLabels, List.countP_cons, ih]
      exact Nat.add_comm _ _

theorem addsNone_visitLabels (v : EndpointQueue × Key × SessionRef) :
    ∀ l ∈ visitLabels now v, l.addsNone = true := by
  intro l hl
  unfold visitLabels at hl
  dsimp only at hl
  split at hl
  · rw [List.mem_singleton.mp hl]
    rfl
  · split at hl
    · rw [List.mem_singleton.mp hl]
      rfl
    · exact absurd hl List.not_mem_nil

/-- A closing operation submits nothing, and ends as much as it releases and surrenders. -/
theorem closing_labels {op : QueueOp} (hop : op.Closing T) :
    (∀ l ∈ q.labelsOf op, l.addsNone = true) ∧
      (q.labelsOf op).countP Slots.Label.works = q.endsOf op := by
  cases op with
  | release e now promoteAt => simp [labelsOf, endsOf, Slots.Label.addsNone, Slots.Label.works]
  | tryPromote now => simp [labelsOf, endsOf, Slots.Label.addsNone, Slots.Label.works]
  | tick now promoteAt =>
      refine ⟨fun l hl => ?_, countP_works_visits _⟩
      obtain ⟨v, -, hv⟩ := List.mem_flatMap.mp hl
      exact addsNone_visitLabels v l hv
  | _ => exact absurd hop id

/-- The work left after a closing operation. -/
theorem Sound.load_step_le (h : Sound cfg q) {op : QueueOp} (hclosing : op.Closing T)
    (hop : q.step op = some q') :
    q'.slots.load + q.endsOf op ≤ q.slots.load := by
  obtain ⟨hadds, hworks⟩ := closing_labels (q := q) hclosing
  rw [← hworks]
  exact Slots.State.load_run_le hadds (Follows.step h hop).1

theorem ready_of_closing {op : QueueOp} (hclosing : op.Closing T) (h : q.step op = some q')
    (hready : q.ready = true) : q'.ready = true := by
  cases op with
  | release e now promoteAt =>
      obtain ⟨-, hq'⟩ := Option.ite_none_right_eq_some.mp h
      obtain rfl := Option.some.inj hq'
      exact (tryPromote_ready _ promoteAt).trans hready
  | tick now promoteAt =>
      obtain rfl := Option.some.inj h
      exact tick_induction (I := fun q => q.ready = true) (P := fun _ _ _ => True)
        (fun q key s hq _ _ => (visit_ready q now (promoteAt key) key s).trans hq)
        (fun _ _ => trivial) hready
  | tryPromote now =>
      obtain rfl := Option.some.inj h
      exact (tryPromote_ready q now).trans hready
  | _ => exact absurd hclosing id

/-! ### A queue with nothing in flight -/

/-- Where something waits although every entry runs that may, somebody holds a spot. -/
theorem Sound.exists_holder (h : Sound cfg q) (hexhausted : q.Exhausted) (hqueue : q.queue ≠ [])
    (hrunning : q.running = []) :
    ∃ key s, q.sessions.get? key = some s ∧ (q.objs s).spotHeld = true := by
  obtain ⟨e, he⟩ := List.exists_mem_of_ne_nil _ hqueue
  by_contra hnone
  have hfree : ∀ key, key ∉ q.spots := by
    intro key hkey
    obtain ⟨s, hs, hheld⟩ := (h.registry.spot_iff key).mp hkey
    exact hnone ⟨key, s, hs, hheld⟩
  have husable : ¬ q.Usable (q.sessionOf e) := by
    rintro (hown | ⟨k, -, hk⟩)
    · exact hfree _ hown
    · exact hfree k hk
  have hsize : q.spots.size = 0 := by
    rw [← OrdDict.length_keys, List.length_eq_zero_iff]
    exact List.eq_nil_iff_forall_not_mem.mpr hfree
  have hroom : q.spots.size < q.cfg.maxSpots := by
    rw [hsize]
    exact q.cfg.maxSpots_pos
  exact hexhausted e he ⟨fun _ => hrunning, Or.inr ⟨husable, hroom⟩⟩

theorem Sound.inflight_eq_zero (h : Sound cfg q) (hrunning : q.running = []) (s : SessionRef) :
    (q.objs s).inflight = 0 := by
  have hcount : q.runningCount s = 0 := by
    rw [runningCount, hrunning]
    rfl
  rw [h.accounts.inflight_eq s, hcount]
  rfl

/-- A tick that surrenders nothing leaves a holder with its status recomputed. -/
theorem Sound.holder_of_quiet (h : Sound cfg q) {key : Key} (hs : q.sessions.get? key = some s)
    (hquiet : q.endsOf (.tick now promoteAt) = 0) :
    (q.tick now promoteAt).1.objs s = (q.objs s).recompute cfg now := by
  have hmem : s ∈ q.sessions.entries.map Prod.snd :=
    List.mem_map.mpr ⟨(key, s), OrdDict.get?_eq_some_iff.mp hs, rfl⟩
  have hnone : ∀ v ∈ q.visits now promoteAt, v.1.surrenders v.2.2 now = false := by
    simpa [endsOf, List.countP_eq_zero] using hquiet
  have hobj := (tickLoop_quiet q.sessions.entries q hnone h.registry.values_nodup).2 s
  rw [if_pos hmem, h.cfg_eq] at hobj
  exact hobj

/-- A tick at which a session is due surrenders a spot. -/
theorem Sound.endsOf_of_due (h : Sound cfg q) {key : Key} (hs : q.sessions.get? key = some s)
    (hheld : (q.objs s).spotHeld = true)
    (hdue : ((q.objs s).recompute cfg now).due cfg now = true) :
    q.endsOf (.tick now promoteAt) ≠ 0 := by
  intro hzero
  have hnone : ∀ v ∈ q.visits now promoteAt, v.1.surrenders v.2.2 now = false := by
    simpa [endsOf, List.countP_eq_zero] using hzero
  have hfound := (tickLoop_quiet q.sessions.entries q hnone h.registry.values_nodup).1
  have hvisit : (key, s) ∈ (q.visits now promoteAt).map Prod.snd := by
    rw [visits, visitsOf_map_snd]
    exact OrdDict.get?_eq_some_iff.mp hs
  obtain ⟨v, hv, heq⟩ := List.mem_map.mp hvisit
  have hvs : v.2.2 = s := congrArg Prod.snd heq
  obtain ⟨hobj, hcfg⟩ := hfound v hv
  have hno := hnone v hv
  rw [hvs] at hobj hno
  have hsur : v.1.surrenders s now = true := by
    unfold surrenders
    rw [hobj, hcfg, h.cfg_eq]
    exact Bool.and_eq_true_iff.mpr ⟨hheld, hdue⟩
  rw [hsur] at hno
  exact Bool.noConfusion hno

/-- With nothing in flight, two late ticks at most are enough for a holder to surrender its
spot. -/
theorem Sound.exists_surrender (h : Sound cfg q) (hrunning : q.running = []) {key : Key}
    (hs : q.sessions.get? key = some s) (hheld : (q.objs s).spotHeld = true) (T : Time) :
    ∃ ops t q', exec EndpointQueue.step q ops = some q' ∧ QueueOp.ClosingFrom T ops t ∧
      q'.slots.load < q.slots.load := by
  let x := q.objs s
  let t₁ := max T (max (x.clientStatusAt + statusUnreachableGrace)
    (x.lastRequestAt + cfg.busyWindow))
  have hrest : Session.AtRest cfg t₁ x :=
    ⟨h.inflight_eq_zero hrunning s, (le_max_left _ _).trans (le_max_right _ _),
      (le_max_right _ _).trans (le_max_right _ _)⟩
  obtain ⟨t₂, hle, hdue⟩ := Session.due_of_rest hrest
  let op₁ := QueueOp.tick t₁ (fun _ => t₁)
  let op₂ := QueueOp.tick t₂ (fun _ => t₂)
  have hT₁ : T ≤ t₁ := le_max_left _ _
  have hclosing₁ : op₁.Closing t₁ := ⟨rfl, fun _ => rfl⟩
  have hclosing₂ : op₂.Closing t₂ := ⟨rfl, fun _ => rfl⟩
  let q₁ := (q.tick t₁ (fun _ => t₁)).1
  have hop₁ : q.step op₁ = some q₁ := rfl
  have hload₁ := h.load_step_le hclosing₁ hop₁
  by_cases hquiet : q.endsOf op₁ = 0
  · have hsound₁ : Sound cfg q₁ := h.step hop₁
    have hobj : q₁.objs s = x.recompute cfg t₁ := h.holder_of_quiet hs hquiet
    have hheld₁ : (q₁.objs s).spotHeld = true := by
      rw [hobj]
      exact hheld
    have hs₁ : q₁.sessions.get? (q₁.objs s).key = some s := hsound₁.registry.live s (Or.inl hheld₁)
    have hends : q₁.endsOf op₂ ≠ 0 := hsound₁.endsOf_of_due hs₁ hheld₁ (hobj ▸ hdue t₂ le_rfl)
    have hop₂ : q₁.step op₂ = some (q₁.tick t₂ (fun _ => t₂)).1 := rfl
    have hload₂ := hsound₁.load_step_le hclosing₂ hop₂
    refine ⟨[op₁, op₂], t₂, (q₁.tick t₂ (fun _ => t₂)).1, rfl, ?_, by omega⟩
    exact ⟨t₁, hT₁, hclosing₁, t₂, hle, hclosing₂, le_refl t₂⟩
  · exact ⟨[op₁], t₁, q₁, rfl, ⟨t₁, hT₁, hclosing₁, le_refl t₁⟩, by omega⟩

/-! ### Every waiting entry starts -/

/-- The entries of the list wait, or have been promoted. -/
def Served (es : List EntryRef) (q : EndpointQueue) : Prop :=
  ∀ e ∈ es, e ∈ q.queue ∨ e ∈ promotedOf q.log

theorem Served.congr {es : List EntryRef} (h : Served es q) (hqueue : q'.queue = q.queue)
    (hlog : promotedOf q'.log = promotedOf q.log) : Served es q' := by
  intro e he
  rw [hqueue, hlog]
  exact h e he

theorem managed_served {es : List EntryRef} : Managed (Served es) where
  promote := by
    intro q e now h _ e' he'
    rw [promote_queue, promote_log]
    by_cases heq : e' = e
    · right
      simp [promotedOf, heq]
    · rcases h e' he' with hwaits | hdone
      · exact Or.inl ((List.mem_erase_of_ne heq).mpr hwaits)
      · right
        rw [promotedOf, List.filterMap_append]
        exact List.mem_append_left _ hdone
  freeSpot := fun _ _ _ h _ => h.congr rfl rfl
  forget := fun _ _ _ h _ _ => h.congr rfl rfl
  cosmetic := fun _ _ _ h _ => h.congr rfl rfl
  setReady := fun _ _ h => h.congr rfl rfl

theorem Served.step {es : List EntryRef} (h : Served es q) {op : QueueOp}
    (hclosing : op.Closing T) (hop : q.step op = some q') : Served es q' := by
  cases op with
  | release e now promoteAt =>
      obtain ⟨-, hq'⟩ := Option.ite_none_right_eq_some.mp hop
      obtain rfl := Option.some.inj hq'
      have hfinish : Served es (q.finish e now) := h.congr rfl (by simp [finish, promotedOf])
      exact managed_served.tryPromote hfinish promoteAt
  | tick now promoteAt => exact managed_served.step h rfl hop
  | tryPromote now => exact managed_served.step h rfl hop
  | _ => exact absurd hclosing id

/-- What closing operations keep: the invariant, the readiness, and the entries that waited. -/
structure Closed (cfg : QueueConfig) (es : List EntryRef) (q : EndpointQueue) : Prop where
  sound : Sound cfg q
  ready : q.ready = true
  served : Served es q

theorem Closed.step {es : List EntryRef} (h : Closed cfg es q) {op : QueueOp}
    (hclosing : op.Closing T) (hop : q.step op = some q') : Closed cfg es q' :=
  ⟨h.sound.step hop, ready_of_closing hclosing hop h.ready, h.served.step hclosing hop⟩

theorem Closed.run {es : List EntryRef} (h : Closed cfg es q) {ops : List QueueOp}
    (hclosing : ∀ op ∈ ops, ∃ t, op.Closing t) (hrun : exec EndpointQueue.step q ops = some q') :
    Closed cfg es q' :=
  (run_of_exec (fun op : QueueOp => ∃ t, op.Closing t) hrun hclosing).invariant
    (fun _ _ _ hs hst => hst.2.elim fun _ hop => hs.step hop hst.1) h

/-- From a queue with `n` work left, closing operations get every waiting entry to start. -/
theorem Closed.drains {es : List EntryRef} (n : Nat) :
    ∀ T q, Closed cfg es q → q.slots.load = n →
      ∃ ops t q', exec EndpointQueue.step q ops = some q' ∧ QueueOp.ClosingFrom T ops t ∧
        q'.queue = [] ∧ Closed cfg es q' := by
  induction n using Nat.strong_induction_on with
  | _ n ih =>
      intro T q h hload
      -- first everything starts that may
      have hclosing : (QueueOp.tryPromote T).Closing T := rfl
      have hop : q.step (.tryPromote T) = some (q.tryPromote T) := rfl
      have h₁ := h.step hclosing hop
      have hload₁ := h.sound.load_step_le hclosing hop
      by_cases hqueue : (q.tryPromote T).queue = []
      · exact ⟨[.tryPromote T], T, _, rfl, .single hclosing, hqueue, h₁⟩
      · -- then a request finishes, or a spot is surrendered
        obtain ⟨ops, t, q₂, hrun, hops, hless⟩ : ∃ ops t q₂,
            exec EndpointQueue.step (q.tryPromote T) ops = some q₂ ∧
              QueueOp.ClosingFrom T ops t ∧ q₂.slots.load < (q.tryPromote T).slots.load := by
          by_cases hrunning : (q.tryPromote T).running = []
          · have hexhausted := h.sound.exhausted_tryPromote h.ready T
            obtain ⟨key, s, hs, hheld⟩ := h₁.sound.exists_holder hexhausted hqueue hrunning
            exact h₁.sound.exists_surrender hrunning hs hheld T
          · obtain ⟨e, he⟩ := List.exists_mem_of_ne_nil _ hrunning
            have hrelease : (QueueOp.release e T T).Closing T := ⟨rfl, rfl⟩
            have hstep : (q.tryPromote T).step (.release e T T) =
                some ((q.tryPromote T).release e T T) := if_pos he
            have hload₂ := h₁.sound.load_step_le hrelease hstep
            refine ⟨[.release e T T], T, (q.tryPromote T).release e T T, by simp [exec, hstep],
              .single hrelease, ?_⟩
            simp only [endsOf] at hload₂
            omega
        obtain ⟨ops', t', q', hrun', hops', hempty, h'⟩ :=
          ih q₂.slots.load (by omega) t q₂ (h₁.run hops.closing hrun) rfl
        refine ⟨.tryPromote T :: (ops ++ ops'), t', q', ?_, ?_, hempty, h'⟩
        · change exec EndpointQueue.step (q.tryPromote T) (ops ++ ops') = some q'
          rw [exec_append, hrun]
          exact hrun'
        · exact ⟨T, le_refl T, hclosing, hops.append hops'⟩

/-- **No request is stuck.** From every reachable state of a ready queue, whatever the clock reads,
there is a continuation made only of requests in flight that finish and of manager ticks, at clock
readings that do not go back, in which every request that waits is promoted. -/
theorem every_waiting_request_starts {ops : List QueueOp}
    (hrun : exec EndpointQueue.step (EndpointQueue.init cfg) ops = some q)
    (hready : q.ready = true) (T : Time) :
    ∃ ops' t q', exec EndpointQueue.step q ops' = some q' ∧ QueueOp.ClosingFrom T ops' t ∧
      q'.queue = [] ∧ ∀ e ∈ q.queue, e ∈ promotedOf q'.log := by
  have hsound : Sound cfg q := sound_of_run (run_any_of_exec hrun)
  have hclosed : Closed cfg q.queue q := ⟨hsound, hready, fun _ he => Or.inl he⟩
  obtain ⟨ops', t, q', hrun', hops', hempty, h'⟩ := Closed.drains _ T q hclosed rfl
  refine ⟨ops', t, q', hrun', hops', hempty, fun e he => ?_⟩
  rcases h'.served e he with hwaits | hdone
  · exact absurd hwaits (hempty ▸ List.not_mem_nil)
  · exact hdone

/-- The requests of `b` and `c`, which wait for the spot of `a`, can both still start. -/
theorem every_waiting_request_starts_twoWait :
    ∃ q, exec EndpointQueue.step (EndpointQueue.init oneSpot) twoWait = some q ∧
      q.queue = [1, 2] ∧ ∃ ops' q', exec EndpointQueue.step q ops' = some q' ∧
        1 ∈ promotedOf q'.log ∧ 2 ∈ promotedOf q'.log := by
  have hview : (exec EndpointQueue.step (EndpointQueue.init oneSpot) twoWait).map
      (fun q => (q.ready, q.queue)) = some (true, [1, 2]) := by decide +kernel
  obtain ⟨q, hexec, hq⟩ := Option.map_eq_some_iff.mp hview
  obtain ⟨hready, hqueue⟩ := Prod.mk.inj hq
  obtain ⟨ops', -, q', hrun', -, -, hall⟩ := every_waiting_request_starts hexec hready 100
  exact ⟨q, hexec, hqueue, ops', q', hrun', hall 1 (by simp [hqueue]), hall 2 (by simp [hqueue])⟩

end EndpointQueue

end Relay
