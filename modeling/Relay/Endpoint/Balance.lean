import Relay.Endpoint.Connections

/-!
# Relay.Endpoint.Balance

**Every counter counts tasks.** The counters of an endpoint are written by many
coroutines, but what they amount to can be read off the phases of the tasks: an entry is
open exactly when one task waits for it or runs on it, a session counts its running
entries and its open tunnels, and `active_forwards` counts the tasks that run outside the
queue. `Balanced` states this, and every step of an endpoint keeps it.
-/

namespace Relay

open Runs

namespace EndpointQueue

variable {q q₀ : EndpointQueue} {e : EntryRef} {held : SessionRef → Nat}

/-- `q` is a later state of the queue `q₀`: no session object has gone, and no history. -/
structure Later (q₀ q : EndpointQueue) : Prop where
  cfg_eq : q.cfg = q₀.cfg
  next_le : q₀.objs.next ≤ q.objs.next
  log_prefix : q₀.log <+: q.log

/-- `q` is a later state of `q₀` whose counters are right and which has no other entries
open. -/
structure Steady (held : SessionRef → Nat) (q₀ q : EndpointQueue) : Prop extends Later q₀ q where
  accounts : Accounts q held
  lifecycle : Lifecycle q
  filed : Filed q
  atomic : AtomicBound q
  isOpen_eq : ∀ e, q.isOpen e = q₀.isOpen e

theorem Steady.refl (hacc : Accounts q held) (hlife : Lifecycle q) (hfiled : Filed q)
    (hatomic : AtomicBound q) : Steady held q q where
  cfg_eq := rfl
  next_le := Nat.le_refl _
  log_prefix := List.prefix_refl _
  accounts := hacc
  lifecycle := hlife
  filed := hfiled
  atomic := hatomic
  isOpen_eq := fun _ => rfl

/-- A change of the session objects, the table and the spots. -/
theorem Steady.of_same {held' : SessionRef → Nat} {q' : EndpointQueue} (h : Steady held q₀ q)
    (hsame : SameEntries q q') (hacc : Accounts q' held') (hfiled : Filed q') :
    Steady held' q₀ q' where
  cfg_eq := hsame.cfg_eq.trans h.cfg_eq
  next_le := hsame.next_eq ▸ h.next_le
  log_prefix := hsame.log_eq ▸ h.log_prefix
  accounts := hacc
  lifecycle := h.lifecycle.congr hsame.log_eq hsame.queue_eq hsame.entries_eq
  filed := hfiled
  atomic := fun hatomic => by
    rw [hsame.total_eq]
    exact h.atomic (hsame.cfg_eq ▸ hatomic)
  isOpen_eq := fun e => by
    rw [← h.isOpen_eq e, isOpen, isOpen, stage, stage, hsame.log_eq]

theorem managed_steady : Managed (Steady held q₀) where
  promote := fun q e now h hsel =>
    { cfg_eq := (promote_cfg q now e).trans h.cfg_eq
      next_le := by
        rw [promote_objs]
        exact h.next_le
      log_prefix := by
        rw [promote_log]
        exact h.log_prefix.trans (List.prefix_append _ _)
      accounts := h.accounts.promote hsel.mem now
      lifecycle := h.lifecycle.promote h.accounts hsel.mem now
      filed := h.filed.promote now e
      atomic := .promote hsel.eligible now
      isOpen_eq := fun e' => by
        rw [h.lifecycle.isOpen_promote hsel.mem, h.isOpen_eq] }
  freeSpot := fun q key s h hs =>
    h.of_same ⟨rfl, rfl, rfl, rfl, rfl, rfl⟩ (managed_accounts.freeSpot q key s h.accounts hs)
      (h.filed.freeSpot s key)
  forget := fun q key s h hs hdead =>
    h.of_same ⟨rfl, rfl, rfl, rfl, rfl, rfl⟩ (managed_accounts.forget q key s h.accounts hs hdead)
      (h.filed.forget key)
  cosmetic := fun q s f h hf =>
    h.of_same ⟨rfl, rfl, rfl, rfl, rfl, rfl⟩ (managed_accounts.cosmetic q s f h.accounts hf)
      (h.filed.modify hf.key rfl rfl)
  setReady := fun q ready h =>
    h.of_same ⟨rfl, rfl, rfl, rfl, rfl, rfl⟩ (managed_accounts.setReady q ready h.accounts)
      (h.filed.congr rfl rfl)

theorem Steady.getOrCreateSession (h : Steady held q₀ q) (r : Requester) (now : Time) :
    Steady held q₀ (q.getOrCreateSession r now).2 := by
  have hacc := h.accounts.getOrCreateSession r now
  have hfiled := (h.filed.getOrCreateSession r now).1
  revert hacc hfiled
  unfold EndpointQueue.getOrCreateSession
  split
  · intro hacc hfiled
    exact
      { cfg_eq := h.cfg_eq
        next_le := Nat.le_succ_of_le h.next_le
        log_prefix := h.log_prefix
        accounts := hacc
        lifecycle := h.lifecycle.congr rfl rfl rfl
        filed := hfiled
        atomic := h.atomic
        isOpen_eq := h.isOpen_eq }
  · intro hacc hfiled
    exact h.of_same ⟨rfl, rfl, rfl, rfl, rfl, rfl⟩ hacc hfiled

/-! ### Open entries -/

/-- An open entry that has been told to go is running. -/
theorem Steady.running_of_done (h : Steady held q₀ q) (hopen : q.isOpen e = true)
    (hdone : (q.entries e).done = true) : e ∈ q.running := by
  rcases (h.lifecycle.isOpen_iff e).mp hopen with he | he
  · rw [(h.accounts.queue_done e he).2] at hdone
    exact absurd hdone Bool.false_ne_true
  · exact he

/-- An open entry that has not been promoted waits. -/
theorem Steady.mem_queue_of_not_done (h : Steady held q₀ q) (hopen : q.isOpen e = true)
    (hdone : (q.entries e).done = false) : e ∈ q.queue := by
  rcases (h.lifecycle.isOpen_iff e).mp hopen with he | he
  · exact he
  · rw [(h.accounts.running_done e he).2] at hdone
    exact absurd hdone (by simp)

end EndpointQueue

namespace Endpoint

open EndpointQueue (Accounts Lifecycle Filed AtomicBound Steady Later)

variable {E E' : Endpoint} {cfg : EndpointConfig} {i : Nat} {t : Task} {q : EndpointQueue}
  {a : Int} {phase : Phase}

/-! ### Counting tasks -/

/-- How many tasks are in a phase that satisfies `p`. -/
def countPhase (E : Endpoint) (p : Phase → Bool) : Nat := E.tasks.countP (fun t => p t.phase)

/-- The open tunnels that run on a spot of the session. -/
def tunnels (E : Endpoint) (s : SessionRef) : Nat :=
  E.countPhase (fun phase => decide (phase.tunnel? = some s))

/-- The tasks that see to the entry. -/
def owners (E : Endpoint) (e : EntryRef) : Nat :=
  E.countPhase (fun phase => decide (phase.entryRef? = some e))

theorem countPhase_advance (ht : E.tasks[i]? = some t) (p : Phase → Bool) :
    (E.advance i t q a phase).countPhase p + (if p t.phase then 1 else 0) =
      E.countPhase p + if p phase then 1 else 0 :=
  Counting.countP_set_add (fun t : Task => p t.phase) (b := t.moveTo phase) ht

theorem tunnels_advance (ht : E.tasks[i]? = some t) (s : SessionRef) :
    (E.advance i t q a phase).tunnels s + (if t.phase.tunnel? = some s then 1 else 0) =
      E.tunnels s + if phase.tunnel? = some s then 1 else 0 := by
  simpa [tunnels] using countPhase_advance (q := q) (a := a) ht
    (fun phase => decide (phase.tunnel? = some s))

theorem owners_advance (ht : E.tasks[i]? = some t) (e : EntryRef) :
    (E.advance i t q a phase).owners e + (if t.phase.entryRef? = some e then 1 else 0) =
      E.owners e + if phase.entryRef? = some e then 1 else 0 := by
  simpa [owners] using countPhase_advance (q := q) (a := a) ht
    (fun phase => decide (phase.entryRef? = some e))

/-- A task that arrives is in no phase that counts. -/
theorem countPhase_arrive (p : Phase → Bool) (hp : p .arrived = false) (request : Request) :
    countPhase { E with tasks := E.tasks ++ [{ request := request }] } p = E.countPhase p := by
  simp [countPhase, List.countP_append, hp]

/-! ### The invariant -/

/-- The counters of the endpoint and of its queue count tasks. -/
structure Balanced (cfg : EndpointConfig) (E : Endpoint) : Prop where
  cfg_eq : E.cfg = cfg
  queue_cfg : E.queue.cfg = cfg.queue
  accounts : Accounts E.queue E.tunnels
  lifecycle : Lifecycle E.queue
  filed : Filed E.queue
  atomic : AtomicBound E.queue
  active_eq : E.activeForwards = E.countPhase Phase.isUnqueued
  pending_lt : ∀ t ∈ E.tasks, ∀ s, t.phase.pending? = some s → s < E.queue.objs.next
  owners_eq : ∀ e, E.owners e = (E.queue.isOpen e).toNat
  running : ∀ t ∈ E.tasks, ∀ e, t.phase = .forwarding e → E.queue.stage e = some .running

theorem Balanced.init (cfg : EndpointConfig) : Balanced cfg (Endpoint.init cfg) where
  cfg_eq := rfl
  queue_cfg := rfl
  accounts := .init cfg.queue
  lifecycle := .init cfg.queue
  filed := .init cfg.queue
  atomic := fun _ => Int.zero_le_ofNat 1
  active_eq := rfl
  pending_lt := fun _ ht => absurd ht List.not_mem_nil
  owners_eq := fun _ => rfl
  running := fun _ ht => absurd ht List.not_mem_nil

/-- The queue of a balanced endpoint, as a later state of itself. -/
theorem Balanced.steady (h : Balanced cfg E) : Steady E.tunnels E.queue E.queue :=
  .refl h.accounts h.lifecycle h.filed h.atomic

/-- The entry a task sees to is open. -/
theorem isOpen_of_mem (howners : ∀ e, E.owners e = (E.queue.isOpen e).toNat) (ht : t ∈ E.tasks)
    {e : EntryRef} (he : t.phase.entryRef? = some e) : E.queue.isOpen e = true := by
  have hpos : 0 < E.owners e := List.countP_pos_iff.mpr ⟨t, ht, by simp [he]⟩
  rw [howners] at hpos
  cases hopen : E.queue.isOpen e with
  | true => rfl
  | false =>
      rw [hopen] at hpos
      exact absurd hpos (Nat.lt_irrefl 0)

/-- What has to be shown of a step. The tasks that are not concerned need no argument: a
session object stays, and an entry that is open and was running still runs. -/
theorem Balanced.change (h : Balanced cfg E) (hcfg : E'.cfg = E.cfg)
    (hlater : Later E.queue E'.queue) (hacc : Accounts E'.queue E'.tunnels)
    (hlife : Lifecycle E'.queue) (hfiled : Filed E'.queue) (hatomic : AtomicBound E'.queue)
    (hactive : E'.activeForwards = E'.countPhase Phase.isUnqueued)
    (howners : ∀ e, E'.owners e = (E'.queue.isOpen e).toNat)
    (htasks : ∀ t ∈ E'.tasks, t ∈ E.tasks ∨
      (∀ s, t.phase.pending? = some s → s < E'.queue.objs.next) ∧
        ∀ e, t.phase = .forwarding e → E'.queue.stage e = some .running) : Balanced cfg E' where
  cfg_eq := hcfg.trans h.cfg_eq
  queue_cfg := hlater.cfg_eq.trans h.queue_cfg
  accounts := hacc
  lifecycle := hlife
  filed := hfiled
  atomic := hatomic
  active_eq := hactive
  pending_lt := by
    intro t ht s hs
    rcases htasks t ht with hold | hnew
    · exact Nat.lt_of_lt_of_le (h.pending_lt t hold s hs) hlater.next_le
    · exact hnew.1 s hs
  owners_eq := howners
  running := by
    intro t ht e he
    rcases htasks t ht with hold | hnew
    · have hopen : E'.queue.isOpen e = true := isOpen_of_mem howners ht (by rw [he]; rfl)
      exact hlife.running_of_prefix hlater.log_prefix (h.running t hold e he) hopen
    · exact hnew.2 e he

/-- A step of one task. `held` stands for the tunnels after the step. -/
theorem Balanced.advance (h : Balanced cfg E) (ht : E.tasks[i]? = some t)
    (hlater : Later E.queue q)
    (hacc : ∀ held : SessionRef → Nat, (∀ s, held s + (if t.phase.tunnel? = some s then 1 else 0) =
      E.tunnels s + if phase.tunnel? = some s then 1 else 0) → Accounts q held)
    (hlife : Lifecycle q) (hfiled : Filed q) (hatomic : AtomicBound q)
    (hactive : a + (if t.phase.isUnqueued then 1 else 0) =
      E.activeForwards + if phase.isUnqueued then 1 else 0)
    (hopen : ∀ e, (q.isOpen e).toNat + (if t.phase.entryRef? = some e then 1 else 0) =
      (E.queue.isOpen e).toNat + if phase.entryRef? = some e then 1 else 0)
    (hpending : ∀ s, phase.pending? = some s → s < q.objs.next)
    (hrunning : ∀ e, phase = .forwarding e → q.stage e = some .running) :
    Balanced cfg (E.advance i t q a phase) := by
  refine h.change rfl hlater (hacc _ (tunnels_advance ht)) hlife hfiled hatomic ?_ ?_ ?_
  · show a = _
    have hcount : (E.advance i t q a phase).countPhase Phase.isUnqueued + _ = _ :=
      countPhase_advance ht Phase.isUnqueued
    have hnow := h.active_eq
    split_ifs at hactive hcount <;> omega
  · intro e
    show _ = (q.isOpen e).toNat
    have hcount : (E.advance i t q a phase).owners e + _ = _ := owners_advance ht e
    have hnow := h.owners_eq e
    have hlater := hopen e
    omega
  · intro t' ht'
    rcases List.mem_or_eq_of_mem_set ht' with hold | rfl
    · exact Or.inl hold
    · exact Or.inr ⟨hpending, hrunning⟩

/-- A step that opens and closes no tunnel. -/
theorem tunnels_eq_of_same {held : SessionRef → Nat} (hsame : phase.tunnel? = t.phase.tunnel?)
    (hheld : ∀ s, held s + (if t.phase.tunnel? = some s then 1 else 0) =
      E.tunnels s + if phase.tunnel? = some s then 1 else 0) : held = E.tunnels := by
  funext s
  have := hheld s
  rw [hsame] at this
  exact Nat.add_right_cancel this

/-- A step that leaves the entries and the tunnels of its task alone. -/
theorem Balanced.quiet (h : Balanced cfg E) (ht : E.tasks[i]? = some t)
    (hq : Steady E.tunnels E.queue q) (htunnel : phase.tunnel? = t.phase.tunnel?)
    (hentry : phase.entryRef? = t.phase.entryRef?)
    (hactive : a + (if t.phase.isUnqueued then 1 else 0) =
      E.activeForwards + if phase.isUnqueued then 1 else 0)
    (hpending : ∀ s, phase.pending? = some s → s < q.objs.next)
    (hrunning : ∀ e, phase = .forwarding e → q.stage e = some .running) :
    Balanced cfg (E.advance i t q a phase) := by
  refine h.advance ht hq.toLater ?_ hq.lifecycle hq.filed hq.atomic hactive ?_ hpending hrunning
  · intro held hheld
    rw [tunnels_eq_of_same htunnel hheld]
    exact hq.accounts
  · intro e
    rw [hentry, hq.isOpen_eq]

/-- A task goes on with what it has to a phase that asks nothing of the queue. -/
theorem Balanced.same (h : Balanced cfg E) (ht : E.tasks[i]? = some t)
    (htunnel : phase.tunnel? = t.phase.tunnel?) (hentry : phase.entryRef? = t.phase.entryRef?)
    (hactive : a + (if t.phase.isUnqueued then 1 else 0) =
      E.activeForwards + if phase.isUnqueued then 1 else 0)
    (hpending : phase.pending? = none) (hforwarding : ∀ e, phase ≠ .forwarding e) :
    Balanced cfg (E.advance i t E.queue a phase) := by
  refine h.quiet ht h.steady htunnel hentry hactive ?_ ?_
  · intro s hs
    rw [hpending] at hs
    cases hs
  · intro e he
    exact absurd he (hforwarding e)

/-! ### Steps of a queued request -/

theorem entryRef?_slotHead (E : Endpoint) (e : EntryRef) : (E.slotHead e).2.entryRef? = some e := by
  unfold slotHead
  split <;> rfl

theorem pending?_slotHead (E : Endpoint) (e : EntryRef) : (E.slotHead e).2.pending? = none := by
  unfold slotHead
  split <;> rfl

theorem tunnel?_slotHead (E : Endpoint) (e : EntryRef) : (E.slotHead e).2.tunnel? = none := by
  unfold slotHead
  split <;> rfl

theorem isUnqueued_slotHead (E : Endpoint) (e : EntryRef) :
    (E.slotHead e).2.isUnqueued = false := by
  unfold slotHead
  split <;> rfl

/-- A request is forwarded when its entry has been told to go. -/
theorem go_of_slotHead {e e' : EntryRef} (h : (E.slotHead e).2 = .forwarding e') :
    e' = e ∧ (E.queue.entries e).go = true := by
  unfold slotHead at h
  split at h
  · rename_i hgo
    exact ⟨(Phase.forwarding.inj h).symm, hgo⟩
  · exact absurd h (by simp)

/-- An open entry that has been told to go is running. -/
theorem running_of_go {held : SessionRef → Nat} {q₀ : EndpointQueue} (h : Steady held q₀ q)
    {e : EntryRef} (hopen : q.isOpen e = true) (hgo : (q.entries e).go = true) :
    q.stage e = some .running := by
  rw [h.lifecycle.running_iff]
  exact h.running_of_done hopen (h.lifecycle.go_iff e ▸ hgo)

/-- The request joins the queue. -/
theorem Balanced.join (h : Balanced cfg E) (ht : E.tasks[i]? = some t) {s : SessionRef}
    (hphase : t.phase = .recording s) (path : String) (now promoteAt : Time)
    (hhead : (slotHead { E with queue := ((E.queue.newEntry s path now).2.enqueue
      (E.queue.newEntry s path now).1 promoteAt) } (E.queue.newEntry s path now).1).2 = phase) :
    Balanced cfg (E.advance i t ((E.queue.newEntry s path now).2.enqueue
      (E.queue.newEntry s path now).1 promoteAt) E.activeForwards phase) := by
  have hmem := List.mem_of_getElem? ht
  have hs : s < E.queue.objs.next := h.pending_lt t hmem s (by rw [hphase]; rfl)
  set made := E.queue.newEntry s path now with hmade
  have hlt : made.1 < made.2.entries.next := Nat.lt_succ_self _
  have hentry : made.2.entries made.1 = { session := s, path := path, enqueuedAt := now } :=
    Heap.alloc_self _ _
  have hnew : made.1 ∉ made.2.queue := fun he =>
    Nat.lt_irrefl _ (h.accounts.queue_done _ he).1
  have happended : Steady E.tunnels (made.2.append made.1) (made.2.append made.1) :=
    .refl ((h.accounts.newEntry hs path now).append hlt (by rw [hentry]) hnew)
      (h.lifecycle.append s path now)
      (h.filed.modify (f := Session.queued _) (fun _ => rfl) rfl
        (EndpointQueue.append_objs made.2 made.1)) h.atomic
  -- the entry opens when it is appended; promotions open and close none
  have hopen : ∀ e, (made.2.append made.1).isOpen e =
      if e = made.1 then true else E.queue.isOpen e := fun e =>
    EndpointQueue.isOpen_of_log (.enqueued made.1) rfl
      ((h.lifecycle.fresh_iff _).mpr (Nat.le_refl _)) rfl e
  have hq : Steady E.tunnels (made.2.append made.1) (made.2.enqueue made.1 promoteAt) :=
    EndpointQueue.managed_steady.tryPromote happended promoteAt
  have hlater : Later E.queue (made.2.enqueue made.1 promoteAt) :=
    { cfg_eq := hq.cfg_eq
      next_le := hq.next_le
      log_prefix := (List.prefix_append _ _).trans hq.log_prefix }
  have hclosed : E.queue.isOpen made.1 = false := by
    rw [EndpointQueue.isOpen, (h.lifecycle.fresh_iff made.1).mpr (Nat.le_refl _)]
    rfl
  have htunnel : phase.tunnel? = none := hhead ▸ tunnel?_slotHead _ _
  have hslot : phase.entryRef? = some made.1 := hhead ▸ entryRef?_slotHead _ _
  refine h.advance ht hlater ?_ hq.lifecycle hq.filed hq.atomic ?_ ?_ ?_ ?_
  · intro held hheld
    have hsame : phase.tunnel? = t.phase.tunnel? := by rw [htunnel, hphase]; rfl
    rw [tunnels_eq_of_same hsame hheld]
    exact hq.accounts
  · have hun : phase.isUnqueued = false := hhead ▸ isUnqueued_slotHead _ _
    rw [hphase, hun]
    rfl
  · intro e
    rw [hq.isOpen_eq, hopen, hslot, hphase]
    by_cases he : e = made.1
    · subst he
      simp [Phase.entryRef?, hclosed]
    · simp [Phase.entryRef?, he, Ne.symm he]
  · intro s' hs'
    rw [← hhead, pending?_slotHead] at hs'
    exact absurd hs' (by simp)
  · intro e he
    obtain ⟨rfl, hgo⟩ := go_of_slotHead (hhead.trans he)
    exact running_of_go hq (by rw [hq.isOpen_eq, hopen, if_pos rfl]) hgo

/-- The request leaves: its entry is closed. -/
theorem Balanced.close (h : Balanced cfg E) (ht : E.tasks[i]? = some t) {e : EntryRef}
    (hentry : t.phase.entryRef? = some e) (hlater : Later E.queue q) (hacc : Accounts q E.tunnels)
    (hlife : Lifecycle q) (hfiled : Filed q) (hatomic : AtomicBound q)
    (hopen : ∀ e', q.isOpen e' = if e' = e then false else E.queue.isOpen e')
    {reply : Reply} (hreply : reply ≠ .leaked) :
    Balanced cfg (E.advance i t q E.activeForwards (.ended reply)) := by
  have hmine := isOpen_of_mem h.owners_eq (List.mem_of_getElem? ht) hentry
  have hphase : t.phase.tunnel? = none ∧ t.phase.isUnqueued = false := by
    cases hphase : t.phase <;> rw [hphase] at hentry <;>
      first | exact ⟨rfl, rfl⟩ | exact absurd hentry (by simp [Phase.entryRef?])
  refine h.advance ht hlater ?_ hlife hfiled hatomic ?_ ?_ ?_ ?_
  · intro held hheld
    have hsame : (Phase.ended reply).tunnel? = t.phase.tunnel? := hphase.1.symm
    rw [tunnels_eq_of_same hsame hheld]
    exact hacc
  · rw [hphase.2, Phase.isUnqueued_ended hreply]
  · intro e'
    rw [hopen, hentry]
    by_cases he : e' = e
    · subst he
      simp [Phase.entryRef?, hmine]
    · simp [Phase.entryRef?, he, Ne.symm he]
  · intro s hs
    exact absurd hs (by simp [Phase.pending?])
  · intro e' he'
    exact absurd he' (by simp)

theorem Balanced.abandon (h : Balanced cfg E) (ht : E.tasks[i]? = some t) {e : EntryRef}
    (hphase : t.phase = .polling e) (hdone : (E.queue.entries e).done = false) {reply : Reply}
    (hreply : reply ≠ .leaked) :
    Balanced cfg (E.advance i t (E.queue.abandon e) E.activeForwards (.ended reply)) := by
  have hentry : t.phase.entryRef? = some e := by
    rw [hphase]
    rfl
  have he : e ∈ E.queue.queue := h.steady.mem_queue_of_not_done
    (isOpen_of_mem h.owners_eq (List.mem_of_getElem? ht) hentry) hdone
  have hlog : (E.queue.abandon e).log = E.queue.log ++ [.abandoned e] := by
    simp [EndpointQueue.abandon, hdone]
  refine h.close ht hentry ?_ (h.accounts.abandon he) (h.lifecycle.abandon h.accounts he)
    (h.filed.abandon e) (h.atomic.abandon e) ?_ hreply
  · constructor
    · simp [EndpointQueue.abandon, hdone]
    · rw [EndpointQueue.abandon_objs hdone]
      exact Nat.le_refl _
    · rw [hlog]
      exact List.prefix_append _ _
  · exact fun e' => EndpointQueue.isOpen_of_log _ hlog ((h.lifecycle.waiting_iff e).mpr he) rfl e'

theorem Balanced.release (h : Balanced cfg E) (ht : E.tasks[i]? = some t) {e : EntryRef}
    (hentry : t.phase.entryRef? = some e) (he : e ∈ E.queue.running) (now promoteAt : Time)
    {reply : Reply} (hreply : reply ≠ .leaked) :
    Balanced cfg (E.advance i t (E.queue.release e now promoteAt) E.activeForwards
      (.ended reply)) := by
  have hfinished : Steady E.tunnels (E.queue.finish e now) (E.queue.finish e now) :=
    .refl (h.accounts.finish he now) (h.lifecycle.finish h.accounts he now)
      (h.filed.modify (f := Session.finished now) (fun _ => rfl) rfl
        (EndpointQueue.finish_objs _ e now))
      (h.atomic.finish (h.accounts.total_pos he) e now)
  have hq : Steady E.tunnels (E.queue.finish e now) (E.queue.release e now promoteAt) :=
    EndpointQueue.managed_steady.tryPromote hfinished promoteAt
  refine h.close ht hentry ?_ hq.accounts hq.lifecycle hq.filed hq.atomic ?_ hreply
  · exact
      { cfg_eq := hq.cfg_eq
        next_le := hq.next_le
        log_prefix := (List.prefix_append _ _).trans hq.log_prefix }
  · intro e'
    rw [hq.isOpen_eq]
    exact EndpointQueue.isOpen_of_log (.released e) rfl
      ((h.lifecycle.running_iff e).mpr he) rfl e'

/-! ### Steps of a connection -/

/-- One pass of the loop of `_hold_ws_spot`, of a task that is in no phase that counts. -/
theorem Balanced.pass (h : Balanced cfg E) (ht : E.tasks[i]? = some t) {s : SessionRef}
    {q' : EndpointQueue} (hq : Steady E.tunnels E.queue q) (hs : s < q.objs.next)
    (hpass : SpotPass q s q' phase) (hentry : t.phase.entryRef? = none)
    (htunnel : t.phase.tunnel? = none) (hun : t.phase.isUnqueued = false) :
    Balanced cfg (E.advance i t q' E.activeForwards phase) := by
  cases hpass with
  | granted hhold =>
      have hsame := EndpointQueue.sameEntries_holdWsSpot hhold
      refine h.advance ht ?_ ?_ ?_ (hq.filed.holdWsSpot hhold) ?_ ?_ ?_ ?_ ?_
      · exact
          { cfg_eq := hsame.cfg_eq.trans hq.cfg_eq
            next_le := hsame.next_eq ▸ hq.next_le
            log_prefix := hsame.log_eq ▸ hq.log_prefix }
      · intro held hheld
        refine hq.accounts.holdWsSpot hs hhold fun s' => ?_
        have hcount := hheld s'
        rw [htunnel] at hcount
        simpa [Phase.tunnel?, eq_comm] using hcount
      · exact hq.lifecycle.congr hsame.log_eq hsame.queue_eq hsame.entries_eq
      · intro hatomic
        rw [hsame.total_eq]
        exact hq.atomic (hsame.cfg_eq ▸ hatomic)
      · rw [hun]
        rfl
      · intro e
        rw [hentry, ← hq.isOpen_eq, EndpointQueue.isOpen, EndpointQueue.isOpen,
          EndpointQueue.stage, EndpointQueue.stage, hsame.log_eq]
        rfl
      · intro s' hs'
        exact absurd hs' (by simp [Phase.pending?])
      · intro e he
        exact absurd he (by simp)
  | refused =>
      refine h.quiet ht hq (by rw [htunnel]; rfl) (by rw [hentry]; rfl) (by rw [hun]; rfl) ?_ ?_
      · intro s' hs'
        exact absurd hs' (by simp [Phase.pending?])
      · intro e he
        exact absurd he (by simp)
  | waits hfull =>
      refine h.quiet ht hq (by rw [htunnel]; rfl) (by rw [hentry]; rfl) (by rw [hun]; rfl) ?_ ?_
      · intro s' hs'
        obtain rfl := Option.some.inj hs'
        exact hs
      · intro e he
        exact absurd he (by simp)

/-- The queue after a connection has been counted out. -/
theorem Balanced.steady_disconnect (h : Balanced cfg E) {s : SessionRef}
    {held : SessionRef → Nat}
    (hheld : ∀ s', held s' + (if s' = s then 1 else 0) = E.tunnels s') (now : Time) :
    Steady held E.queue (E.queue.releaseWsSpot s now) := by
  have hended : Steady held E.queue (E.queue.endWs s) :=
    h.steady.of_same (EndpointQueue.sameEntries_endWs _ s) (h.accounts.endWs hheld)
      (h.filed.modify (f := Session.disconnected) (fun _ => rfl) rfl (EndpointQueue.endWs_objs _ s))
  rcases EndpointQueue.releaseWsSpot_cases E.queue s now with ⟨-, heq⟩ | ⟨-, heq⟩
  · rw [heq]
    exact EndpointQueue.managed_steady.tryPromote
      (hended.of_same (EndpointQueue.sameEntries_dropSpot _ s) (hended.accounts.dropSpot s)
        (hended.filed.modify (f := Session.dropped) (fun _ => rfl) rfl
          (EndpointQueue.dropSpot_objs _ s))) now
  · rw [heq]
    exact hended

theorem Balanced.disconnect (h : Balanced cfg E) (ht : E.tasks[i]? = some t) {s : SessionRef}
    (hphase : t.phase = .tunnel s) (now : Time) {code : Option Nat} :
    Balanced cfg (E.advance i t (E.queue.releaseWsSpot s now) E.activeForwards
      (.ended (.closed code))) := by
  have hq : ∀ held : SessionRef → Nat,
      (∀ s', held s' + (if t.phase.tunnel? = some s' then 1 else 0) =
        E.tunnels s' + if (Phase.ended (.closed code)).tunnel? = some s' then 1 else 0) →
      Steady held E.queue (E.queue.releaseWsSpot s now) := by
    intro held hheld
    refine h.steady_disconnect (fun s' => ?_) now
    have := hheld s'
    rw [hphase] at this
    simpa [Phase.tunnel?, eq_comm] using this
  have hself := hq _ (tunnels_advance (q := E.queue) (a := 0) ht)
  refine h.advance ht hself.toLater (fun held hheld => (hq held hheld).accounts) hself.lifecycle
    hself.filed hself.atomic ?_ ?_ ?_ ?_
  · rw [hphase]
    rfl
  · intro e
    rw [hphase, hself.isOpen_eq]
    rfl
  · intro s' hs'
    exact absurd hs' (by simp [Phase.pending?])
  · intro e he
    exact absurd he (by simp)

/-! ### Steps of a request that is not queued -/

/-- A forward outside the queue ends. The clamp at zero changes nothing: this task is
counted. -/
theorem Balanced.finishUnqueued (h : Balanced cfg E) (ht : E.tasks[i]? = some t)
    (hun : t.phase.isUnqueued = true) {reply : Reply} (hreply : reply ≠ .leaked) :
    Balanced cfg (E.advance i t E.queue (max 0 (E.activeForwards - 1)) (.ended reply)) := by
  have hpos : 0 < E.countPhase Phase.isUnqueued :=
    List.countP_pos_iff.mpr ⟨t, List.mem_of_getElem? ht, hun⟩
  have hphase : t.phase.tunnel? = none ∧ t.phase.entryRef? = none := by
    cases hphase : t.phase <;> rw [hphase] at hun <;>
      first | exact ⟨rfl, rfl⟩ | exact absurd hun Bool.false_ne_true
  refine h.same ht (by rw [hphase.1]; rfl) (by rw [hphase.2]; rfl) ?_ rfl (fun e => by simp)
  have hactive := h.active_eq
  rw [hun, Phase.isUnqueued_ended hreply]
  show max 0 (E.activeForwards - 1) + 1 = E.activeForwards + 0
  omega

/-! ### Every step keeps the balance -/

/-- A task that runs on keeps the balance. -/
theorem Balanced.move (h : Balanced cfg E) (ht : E.tasks[i]? = some t)
    (hmove : Move E t q a phase) : Balanced cfg (E.advance i t q a phase) := by
  have hmem := List.mem_of_getElem? ht
  cases hmove with
  | idle hidle hidle' =>
      refine h.same ht ?_ ?_ ?_ (Phase.isIdle.pending? hidle') ?_
      · rw [Phase.isIdle.tunnel? hidle, Phase.isIdle.tunnel? hidle']
      · rw [Phase.isIdle.entryRef? hidle, Phase.isIdle.entryRef? hidle']
      · rw [Phase.isIdle.isUnqueued hidle, Phase.isIdle.isUnqueued hidle']
      · rintro e rfl
        exact Bool.false_ne_true hidle'
  | begin hidle =>
      refine h.quiet ht (h.steady.getOrCreateSession _ _) ?_ ?_ ?_ ?_ ?_
      · rw [Phase.isIdle.tunnel? hidle]
        rfl
      · rw [Phase.isIdle.entryRef? hidle]
        rfl
      · rw [Phase.isIdle.isUnqueued hidle]
        rfl
      · intro s hs
        obtain rfl := Option.some.inj hs
        exact (h.filed.getOrCreateSession _ _).2
      · intro e he
        exact absurd he (by simp)
  | fail hphase =>
      refine h.same ht ?_ ?_ ?_ rfl (fun e => by simp)
      · rw [hphase]
        rfl
      · rw [hphase]
        rfl
      · rw [hphase]
        rfl
  | join hphase hhead => exact h.join ht hphase _ _ _ hhead
  | @head e hphase =>
      have hopen : E.queue.isOpen e = true :=
        isOpen_of_mem h.owners_eq hmem (by rw [hphase]; rfl)
      refine h.quiet ht h.steady ?_ ?_ ?_ ?_ ?_
      · rw [tunnel?_slotHead, hphase]
        rfl
      · rw [entryRef?_slotHead, hphase]
        rfl
      · rw [isUnqueued_slotHead, hphase]
        rfl
      · intro s hs
        rw [pending?_slotHead] at hs
        exact absurd hs (by simp)
      · intro e' he'
        obtain ⟨rfl, hgo⟩ := go_of_slotHead he'
        exact running_of_go h.steady hopen hgo
  | sleep hphase =>
      refine h.same ht ?_ ?_ ?_ rfl (fun e => by simp)
      · rw [hphase]
        rfl
      · rw [hphase]
        rfl
      · rw [hphase]
        rfl
  | abandon hphase hdone hreply =>
      refine h.abandon ht hphase hdone ?_
      rcases hreply with rfl | rfl <;> exact Reply.noConfusion
  | @leave e reply now promoteAt hphase hdone hreply =>
      have hentry : t.phase.entryRef? = some e := by
        rw [hphase]
        rfl
      exact h.release ht hentry
        (h.steady.running_of_done (isOpen_of_mem h.owners_eq hmem hentry) hdone) _ _
        (by rcases hreply with rfl | rfl <;> exact Reply.noConfusion)
  | @finish e now promoteAt hphase =>
      have hentry : t.phase.entryRef? = some e := by
        rw [hphase]
        rfl
      exact h.release ht hentry ((h.lifecycle.running_iff e).mp (h.running t hmem e hphase)) _ _
        Reply.noConfusion
  | forward hidle hphase =>
      refine h.same ht ?_ ?_ ?_ ?_ ?_
      · rw [Phase.isIdle.tunnel? hidle]
        rcases hphase with rfl | rfl | rfl <;> rfl
      · rw [Phase.isIdle.entryRef? hidle]
        rcases hphase with rfl | rfl | rfl <;> rfl
      · rw [Phase.isIdle.isUnqueued hidle]
        rcases hphase with rfl | rfl | rfl <;> exact Int.add_zero _
      · rcases hphase with rfl | rfl | rfl <;> rfl
      · intro e
        rcases hphase with rfl | rfl | rfl <;> simp
  | finishForward hphase =>
      exact h.finishUnqueued ht (by rw [hphase]; rfl) Reply.noConfusion
  | finishTunnel hphase =>
      exact h.finishUnqueued ht (by rw [hphase]; rfl) Reply.noConfusion
  | connect hidle hpass =>
      exact h.pass ht (h.steady.getOrCreateSession _ _) (h.filed.getOrCreateSession _ _).2 hpass
        (Phase.isIdle.entryRef? hidle) (Phase.isIdle.tunnel? hidle) (Phase.isIdle.isUnqueued hidle)
  | retry hphase hpass =>
      exact h.pass ht h.steady (h.pending_lt t hmem _ (by rw [hphase]; rfl)) hpass
        (by rw [hphase]; rfl) (by rw [hphase]; rfl) (by rw [hphase]; rfl)
  | disconnect hphase => exact h.disconnect ht hphase _

theorem Balanced.arrive (h : Balanced cfg E) (request : Request) :
    Balanced cfg { E with tasks := E.tasks ++ [{ request := request }] } := by
  refine h.change rfl h.steady.toLater ?_ h.lifecycle h.filed h.atomic ?_ ?_ ?_
  · have htunnels : tunnels { E with tasks := E.tasks ++ [{ request := request }] } = E.tunnels :=
      funext fun s => countPhase_arrive _ rfl request
    rw [htunnels]
    exact h.accounts
  · rw [countPhase_arrive _ rfl]
    exact h.active_eq
  · intro e
    rw [owners, countPhase_arrive _ rfl]
    exact h.owners_eq e
  · intro t ht
    rcases List.mem_append.mp ht with hold | hnew
    · exact Or.inl hold
    · obtain rfl := List.mem_singleton.mp hnew
      refine Or.inr ⟨fun s hs => ?_, fun e he => ?_⟩
      · exact absurd hs (by simp [Phase.pending?])
      · exact absurd he (by simp)

/-- A change of the queue that touches no entry and no connection keeps the balance. -/
theorem Balanced.of_steady (h : Balanced cfg E) (hq : Steady E.tunnels E.queue q) :
    Balanced cfg { E with queue := q } := by
  refine h.change rfl hq.toLater hq.accounts hq.lifecycle hq.filed hq.atomic h.active_eq ?_
    fun t ht => Or.inl ht
  intro e
  show E.owners e = (q.isOpen e).toNat
  rw [hq.isOpen_eq, h.owners_eq]

/-- The queue manager keeps the balance. -/
theorem Balanced.manage (h : Balanced cfg E) {op : QueueOp} (hop : op.isManaged = true)
    (hstep : E.queue.step op = some q) : Balanced cfg { E with queue := q } :=
  h.of_steady (EndpointQueue.managed_steady.step h.steady hop hstep)

/-- Every step of an endpoint keeps the balance. -/
theorem Balanced.step (h : Balanced cfg E) {op : Op} (hstep : E.step op = some E') :
    Balanced cfg E' := by
  rcases step_cases hstep with ⟨request, -, rfl⟩ |
    ⟨i, input, t, q, a, phase, -, ht, hmove, -, rfl⟩ | ⟨qop, q, -, hmanaged, hqstep, rfl⟩
  · exact h.arrive request
  · exact h.move ht hmove
  · exact h.manage hmanaged hqstep

/-- The balance holds after every run from a new endpoint. -/
theorem balanced_of_run {ops : List Op} {ok : Endpoint → Op → Prop}
    (h : Run (Steps Endpoint.step ok) (Endpoint.init cfg) ops E) : Balanced cfg E :=
  h.invariant (fun _ _ _ hs hstep => hs.step hstep.1) (Balanced.init cfg)

end Endpoint

end Relay
