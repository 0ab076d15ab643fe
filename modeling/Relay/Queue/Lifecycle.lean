import Relay.Library.History
import Relay.Queue.Operations

/-!
# Relay.Queue.Lifecycle

**The life of a queue entry.** An entry is enqueued, and then either abandoned, or
promoted and then released. `Stage.next` is this automaton, and `Lifecycle` says that the
history of a queue follows it for every entry: the entries waiting and running are those
whose stage says so, and no event ever happens out of turn.
-/

namespace Relay

/-- The entry an event is about. -/
def QueueEvent.entry : QueueEvent → EntryRef
  | .enqueued e | .promoted e | .abandoned e | .released e => e

/-- Where an entry is in its life. -/
inductive Stage
  | fresh
  | waiting
  | running
  | released
  | abandoned
  deriving DecidableEq, Repr

namespace Stage

/-- The life of an entry. -/
def next : Stage → QueueEvent → Option Stage
  | .fresh, .enqueued _ => some .waiting
  | .waiting, .promoted _ => some .running
  | .waiting, .abandoned _ => some .abandoned
  | .running, .released _ => some .released
  | _, _ => none

/-- How often an entry has been promoted, released and abandoned. -/
def promotions : Stage → Nat
  | .running | .released => 1
  | _ => 0

@[inherit_doc promotions] def releases : Stage → Nat
  | .released => 1
  | _ => 0

@[inherit_doc promotions] def abandonments : Stage → Nat
  | .abandoned => 1
  | _ => 0

/-- Whether somebody still has to see to the entry. -/
def isOpen : Stage → Bool
  | .waiting | .running => true
  | _ => false

end Stage

/-- The stage a history brings an entry to; `none` when the history is not a life. -/
def stageOf (log : List QueueEvent) (e : EntryRef) : Option Stage :=
  History.stage Stage.next .fresh QueueEvent.entry log e

/-- How often a history promotes an entry. -/
def promotions (log : List QueueEvent) (e : EntryRef) : Nat :=
  log.countP (fun event => (event matches .promoted _) && decide (event.entry = e))

/-- How often a history releases an entry. -/
def releases (log : List QueueEvent) (e : EntryRef) : Nat :=
  log.countP (fun event => (event matches .released _) && decide (event.entry = e))

/-- How often a history abandons an entry. -/
def abandonments (log : List QueueEvent) (e : EntryRef) : Nat :=
  log.countP (fun event => (event matches .abandoned _) && decide (event.entry = e))

/-- The stage of an entry counts its promotions, releases and abandonments. -/
theorem counts_of_stageOf {log : List QueueEvent} {e : EntryRef} {stage : Stage}
    (h : stageOf log e = some stage) :
    promotions log e = stage.promotions ∧ releases log e = stage.releases ∧
      abandonments log e = stage.abandonments := by
  refine ⟨?_, ?_, ?_⟩
  · refine History.countP_of_stage Stage.promotions ?_ rfl log h
    intro s event s' hnext
    cases s <;> cases event <;> cases hnext <;> rfl
  · refine History.countP_of_stage Stage.releases ?_ rfl log h
    intro s event s' hnext
    cases s <;> cases event <;> cases hnext <;> rfl
  · refine History.countP_of_stage Stage.abandonments ?_ rfl log h
    intro s event s' hnext
    cases s <;> cases event <;> cases hnext <;> rfl

namespace EndpointQueue

variable {q q' : EndpointQueue} {e : EntryRef} {now : Time} {held : SessionRef → Nat}

/-- The stage of an entry in the history of the queue. -/
def stage (q : EndpointQueue) (e : EntryRef) : Option Stage := stageOf q.log e

/-- The history of every entry is a life, and the queue knows where in it the entry is. -/
structure Lifecycle (q : EndpointQueue) : Prop where
  legal : ∀ e, (q.stage e).isSome = true
  fresh_iff : ∀ e, q.stage e = some .fresh ↔ q.entries.next ≤ e
  waiting_iff : ∀ e, q.stage e = some .waiting ↔ e ∈ q.queue
  running_iff : ∀ e, q.stage e = some .running ↔ e ∈ q.running
  go_iff : ∀ e, (q.entries e).go = (q.entries e).done

theorem Lifecycle.init (cfg : QueueConfig) : Lifecycle (EndpointQueue.init cfg) where
  legal := fun _ => rfl
  fresh_iff := fun e => iff_of_true rfl (Nat.zero_le e)
  waiting_iff := fun _ =>
    iff_of_false (by simp [stage, stageOf, EndpointQueue.init]) List.not_mem_nil
  running_iff := fun _ =>
    iff_of_false (by simp [stage, stageOf, EndpointQueue.init]) List.not_mem_nil
  go_iff := fun _ => rfl

/-- An event brings the entry it is about to the next stage, and the others nowhere. -/
theorem stage_of_log {event : QueueEvent} (hlog : q'.log = q.log ++ [event]) (e : EntryRef) :
    q'.stage e = if event.entry = e then (q.stage e).bind (fun s => s.next event)
      else q.stage e := by
  rw [stage, hlog]
  exact History.stage_snoc q.log event e

/-- What happens to one entry. The other entries stay where they are. -/
theorem Lifecycle.event (h : Lifecycle q) (event : QueueEvent) {stage : Stage} (stage' : Stage)
    (hlog : q'.log = q.log ++ [event]) (hstage : q.stage event.entry = some stage)
    (hnext : stage.next event = some stage')
    (hfresh : ∀ e, q'.entries.next ≤ e ↔ e ≠ event.entry ∧ q.entries.next ≤ e)
    (hqueue : ∀ e, e ∈ q'.queue ↔ if e = event.entry then stage' = .waiting else e ∈ q.queue)
    (hrunning : ∀ e, e ∈ q'.running ↔ if e = event.entry then stage' = .running else e ∈ q.running)
    (hgo : ∀ e, (q'.entries e).go = (q'.entries e).done) : Lifecycle q' := by
  have hself : q'.stage event.entry = some stage' := by
    rw [stage_of_log hlog, if_pos rfl, hstage]
    exact hnext
  have hother : ∀ e, e ≠ event.entry → q'.stage e = q.stage e := fun e he => by
    rw [stage_of_log hlog, if_neg (Ne.symm he)]
  have hne : stage' ≠ .fresh := by
    intro heq
    subst heq
    cases stage <;> cases event <;> cases hnext
  constructor
  · intro e
    by_cases he : e = event.entry
    · rw [he, hself]
      rfl
    · rw [hother e he]
      exact h.legal e
  · intro e
    rw [hfresh]
    by_cases he : e = event.entry
    · rw [he, hself]
      simp [hne]
    · rw [hother e he, h.fresh_iff]
      simp [he]
  · intro e
    rw [hqueue]
    by_cases he : e = event.entry
    · rw [he, hself]
      simp
    · rw [hother e he, if_neg he]
      exact h.waiting_iff e
  · intro e
    rw [hrunning]
    by_cases he : e = event.entry
    · rw [he, hself]
      simp
    · rw [hother e he, if_neg he]
      exact h.running_iff e
  · exact hgo

/-- A step that leaves history, queue and entries alone. -/
theorem Lifecycle.congr (h : Lifecycle q) (hlog : q'.log = q.log) (hqueue : q'.queue = q.queue)
    (hentries : q'.entries = q.entries) : Lifecycle q' := by
  have hstage : ∀ e, q'.stage e = q.stage e := fun e => congrArg (stageOf · e) hlog
  have hrunning : q'.running = q.running := congrArg runningOf hlog
  constructor
  · exact fun e => hstage e ▸ h.legal e
  · intro e
    rw [hstage, hentries]
    exact h.fresh_iff e
  · intro e
    rw [hstage, hqueue]
    exact h.waiting_iff e
  · intro e
    rw [hstage, hrunning]
    exact h.running_iff e
  · intro e
    rw [hentries]
    exact h.go_iff e

/-! ### Every operation is a step of the life of an entry -/

theorem Lifecycle.lt_of_mem_queue (h : Lifecycle q) (he : e ∈ q.queue) : e < q.entries.next := by
  by_contra hge
  have hfresh := (h.fresh_iff e).mpr (Nat.not_lt.mp hge)
  rw [(h.waiting_iff e).mpr he] at hfresh
  cases hfresh

theorem Lifecycle.lt_of_mem_running (h : Lifecycle q) (he : e ∈ q.running) :
    e < q.entries.next := by
  by_contra hge
  have hfresh := (h.fresh_iff e).mpr (Nat.not_lt.mp hge)
  rw [(h.running_iff e).mpr he] at hfresh
  cases hfresh

/-- An event about an entry that exists makes no entry. -/
theorem fresh_iff_of_lt {n e : EntryRef} (he : e < n) (e' : EntryRef) :
    n ≤ e' ↔ e' ≠ e ∧ n ≤ e' := by
  constructor
  · intro hle
    exact ⟨Nat.ne_of_gt (Nat.lt_of_lt_of_le he hle), hle⟩
  · exact fun h => h.2

theorem Lifecycle.promote (h : Lifecycle q) (hacc : Accounts q held) (he : e ∈ q.queue)
    (now : Time) : Lifecycle (q.promote now e) := by
  refine h.event (.promoted e) .running (promote_log q now e)
    ((h.waiting_iff e).mpr he) rfl ?_ ?_ ?_ ?_
  · rw [promote_entries]
    exact fresh_iff_of_lt (h.lt_of_mem_queue he)
  · intro e'
    show e' ∈ (q.promote now e).queue ↔ if e' = e then _ else _
    rw [promote_queue, hacc.queue_nodup.mem_erase_iff]
    by_cases heq : e' = e <;> simp [heq]
  · intro e'
    show e' ∈ (q.promote now e).running ↔ if e' = e then _ else _
    rw [promote_running, List.mem_append, List.mem_singleton]
    by_cases heq : e' = e <;> simp [heq]
  · intro e'
    rw [promote_entries, Heap.modify_apply]
    split
    · rfl
    · exact h.go_iff e'

/-- A new entry joins the queue. -/
theorem Lifecycle.append (h : Lifecycle q) (s : SessionRef) (path : String) (now : Time) :
    Lifecycle ((q.newEntry s path now).2.append (q.newEntry s path now).1) := by
  refine h.event (.enqueued q.entries.next) .waiting rfl
    ((h.fresh_iff _).mpr (Nat.le_refl _)) rfl ?_ ?_ ?_ ?_
  · intro e'
    show q.entries.next + 1 ≤ e' ↔ e' ≠ q.entries.next ∧ q.entries.next ≤ e'
    rw [Nat.succ_le_iff, Nat.lt_iff_le_and_ne, and_comm, ne_comm]
  · intro e'
    show e' ∈ q.queue ++ [q.entries.next] ↔ if e' = q.entries.next then _ else _
    rw [List.mem_append, List.mem_singleton]
    by_cases heq : e' = q.entries.next <;> simp [heq]
  · intro e'
    have hrunning : ((q.newEntry s path now).2.append (q.newEntry s path now).1).running =
        q.running := runningOf_snoc_enqueued q.log _
    rw [hrunning]
    show _ ↔ if e' = q.entries.next then _ else _
    split
    · rename_i heq
      refine iff_of_false (fun hmem => ?_) (by simp)
      exact Nat.lt_irrefl _ (heq ▸ h.lt_of_mem_running hmem)
    · rfl
  · intro e'
    show (q.entries.alloc _ e').go = (q.entries.alloc _ e').done
    by_cases heq : e' = q.entries.next
    · rw [heq, Heap.alloc_self]
    · rw [Heap.alloc_of_ne _ _ heq]
      exact h.go_iff e'

theorem Lifecycle.abandon (h : Lifecycle q) (hacc : Accounts q held) (he : e ∈ q.queue) :
    Lifecycle (q.abandon e) := by
  have hdone := (hacc.queue_done e he).2
  have heq : q.abandon e = { q with
      queue := q.queue.erase e
      objs := q.objs.modify (q.sessionOf e) Session.unqueued
      log := q.log ++ [.abandoned e] } := by
    simp only [EndpointQueue.abandon, hdone]
    rfl
  rw [heq]
  refine h.event (.abandoned e) .abandoned rfl
    ((h.waiting_iff e).mpr he) rfl (fresh_iff_of_lt (h.lt_of_mem_queue he)) ?_ ?_ h.go_iff
  · intro e'
    show e' ∈ q.queue.erase e ↔ if e' = e then _ else _
    rw [hacc.queue_nodup.mem_erase_iff]
    by_cases heq : e' = e <;> simp [heq]
  · intro e'
    show e' ∈ runningOf (q.log ++ [.abandoned e]) ↔ if e' = e then _ else _
    rw [runningOf_snoc_abandoned]
    split
    · rename_i heq
      exact iff_of_false (heq ▸ hacc.not_mem_running he) (by simp)
    · rfl

theorem Lifecycle.finish (h : Lifecycle q) (hacc : Accounts q held) (he : e ∈ q.running)
    (now : Time) : Lifecycle (q.finish e now) := by
  refine h.event (.released e) .released rfl
    ((h.running_iff e).mpr he) rfl (fresh_iff_of_lt (h.lt_of_mem_running he)) ?_ ?_ h.go_iff
  · intro e'
    show e' ∈ q.queue ↔ if e' = e then _ else _
    split
    · rename_i heq
      exact iff_of_false (fun hmem => hacc.not_mem_running hmem (heq ▸ he)) (by simp)
    · rfl
  · intro e'
    have hrunning : (q.finish e now).running = q.running.erase e := runningOf_snoc_released q.log e
    rw [hrunning, hacc.running_nodup.mem_erase_iff]
    show _ ↔ if e' = e then _ else _
    by_cases heq : e' = e <;> simp [heq]

/-! ### Entries somebody has to see to -/

/-- The entry waits or runs. -/
def isOpen (q : EndpointQueue) (e : EntryRef) : Bool := (q.stage e).any Stage.isOpen

theorem Lifecycle.isOpen_iff (h : Lifecycle q) (e : EntryRef) :
    q.isOpen e = true ↔ e ∈ q.queue ∨ e ∈ q.running := by
  rw [← h.waiting_iff, ← h.running_iff, isOpen]
  cases hstage : q.stage e with
  | none => simp
  | some stage => cases stage <;> simp [Stage.isOpen]

theorem Lifecycle.isOpen_of_mem_queue (h : Lifecycle q) (he : e ∈ q.queue) : q.isOpen e = true :=
  (h.isOpen_iff e).mpr (Or.inl he)

theorem Lifecycle.isOpen_of_mem_running (h : Lifecycle q) (he : e ∈ q.running) :
    q.isOpen e = true :=
  (h.isOpen_iff e).mpr (Or.inr he)

/-- An event changes whether its own entry is open, and no other. -/
theorem isOpen_of_log (event : QueueEvent) {stage stage' : Stage}
    (hlog : q'.log = q.log ++ [event]) (hstage : q.stage event.entry = some stage)
    (hnext : stage.next event = some stage') (e : EntryRef) :
    q'.isOpen e = if e = event.entry then stage'.isOpen else q.isOpen e := by
  rw [isOpen, stage_of_log hlog]
  split
  · rename_i heq
    rw [if_pos heq.symm, ← heq, hstage]
    simp [hnext]
  · rename_i hne
    rw [if_neg (Ne.symm hne)]
    rfl

theorem Lifecycle.isOpen_promote (h : Lifecycle q) (he : e ∈ q.queue) (now : Time)
    (e' : EntryRef) : (q.promote now e).isOpen e' = q.isOpen e' := by
  rw [isOpen_of_log (.promoted e) (promote_log q now e) ((h.waiting_iff e).mpr he) rfl]
  show (if e' = e then true else q.isOpen e') = q.isOpen e'
  split
  · rename_i heq
    rw [heq, h.isOpen_of_mem_queue he]
  · rfl

/-- A running entry that is still open later is still running. -/
theorem Lifecycle.running_of_prefix (h : Lifecycle q') (hlog : q.log <+: q'.log)
    (hstage : q.stage e = some .running) (hopen : q'.isOpen e = true) :
    q'.stage e = some .running := by
  obtain ⟨later, hlater⟩ := hlog
  -- once released, an entry has no further event
  have hstep : ∀ later : List QueueEvent,
      stageOf (q.log ++ later) e = some .running ∨ stageOf (q.log ++ later) e = some .released ∨
        stageOf (q.log ++ later) e = none := by
    intro later
    induction later using List.reverseRecOn with
    | nil =>
        rw [List.append_nil]
        exact Or.inl hstage
    | append_singleton later event ih =>
        have hsnoc : stageOf (q.log ++ later ++ [event]) e =
            if event.entry = e then (stageOf (q.log ++ later) e).bind (fun s => s.next event)
            else stageOf (q.log ++ later) e := History.stage_snoc (q.log ++ later) event e
        rw [← List.append_assoc]
        rw [hsnoc]
        change stageOf (q.log ++ later) e = _ ∨ stageOf (q.log ++ later) e = _ ∨ _ at ih
        split
        · change (stageOf (q.log ++ later) e).bind _ = _ ∨ (stageOf (q.log ++ later) e).bind _ = _ ∨
            (stageOf (q.log ++ later) e).bind _ = _
          rcases ih with ih | ih | ih
          · rw [ih]
            cases event <;> simp [Stage.next]
          · rw [ih]
            cases event <;> simp [Stage.next]
          · rw [ih]
            simp
        · exact ih
  have hcases := hstep later
  rw [hlater] at hcases
  rcases hcases with hrun | hrel | hnone
  · exact hrun
  · have hclosed : q'.isOpen e = false := by
      rw [isOpen, stage, hrel]
      rfl
    rw [hclosed] at hopen
    exact absurd hopen Bool.false_ne_true
  · have hlegal := h.legal e
    rw [stage, hnone] at hlegal
    exact absurd hlegal (by simp)

end EndpointQueue

end Relay
