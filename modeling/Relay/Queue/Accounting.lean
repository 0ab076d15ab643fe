import Relay.Queue.Frame

/-!
# Relay.Queue.Accounting

**The counters count.** `Accounts q held` says that every session's `waiting` is
the number of its queued entries, that its `inflight` is the number of its entries
in flight plus the WebSocket connections counted by `held`, and that
`inflight_total` is the number of entries in flight. It speaks about session
objects, not about the session table, so it holds whatever the table forgets; the
connections enter through the parameter because they are counted by hand, outside
the queue's methods.

Each operation has one lemma. The promotion loop, `tick` and everything built from
them follow by the induction rules of `Relay.Queue.Frame`.
-/

namespace Relay

namespace EndpointQueue

variable {q q' : EndpointQueue} {e : EntryRef} {s : SessionRef} {now : Time}
  {held : SessionRef → Nat}

/-- The number of queued entries of a session object. -/
def waitingCount (q : EndpointQueue) (s : SessionRef) : Nat :=
  q.queue.countP (fun e => q.sessionOf e = s)

/-- The number of entries of a session object that are in flight. -/
def runningCount (q : EndpointQueue) (s : SessionRef) : Nat :=
  q.running.countP (fun e => q.sessionOf e = s)

/-- The counters agree with the entries and with the connections `held` counts. -/
structure Accounts (q : EndpointQueue) (held : SessionRef → Nat) : Prop where
  queue_nodup : q.queue.Nodup
  running_nodup : q.running.Nodup
  queue_done : ∀ e ∈ q.queue, e < q.entries.next ∧ (q.entries e).done = false
  running_done : ∀ e ∈ q.running, e < q.entries.next ∧ (q.entries e).done = true
  session_lt : ∀ e, e < q.entries.next → q.sessionOf e < q.objs.next
  held_lt : ∀ s, held s ≠ 0 → s < q.objs.next
  waiting_eq : ∀ s, (q.objs s).waiting = q.waitingCount s
  inflight_eq : ∀ s, (q.objs s).inflight = q.runningCount s + held s
  total_eq : q.inflightTotal = q.running.length

namespace Accounts

theorem init (cfg : QueueConfig) : Accounts (EndpointQueue.init cfg) (fun _ => 0) where
  queue_nodup := List.nodup_nil
  running_nodup := List.nodup_nil
  queue_done := fun _ he => absurd he List.not_mem_nil
  running_done := fun _ he => absurd he List.not_mem_nil
  session_lt := fun _ he => absurd he (Nat.not_lt_zero _)
  held_lt := fun _ hs => absurd rfl hs
  waiting_eq := fun _ => rfl
  inflight_eq := fun _ => rfl
  total_eq := rfl

/-! ### What the counters say -/

theorem waiting_pos (h : Accounts q held) (he : e ∈ q.queue) :
    0 < (q.objs (q.sessionOf e)).waiting := by
  rw [h.waiting_eq]
  have : 0 < q.waitingCount (q.sessionOf e) :=
    List.countP_pos_iff.mpr ⟨e, he, by simp⟩
  omega

theorem inflight_pos (h : Accounts q held) (he : e ∈ q.running) :
    0 < (q.objs (q.sessionOf e)).inflight := by
  rw [h.inflight_eq]
  have : 0 < q.runningCount (q.sessionOf e) :=
    List.countP_pos_iff.mpr ⟨e, he, by simp⟩
  omega

theorem inflight_pos_of_held (h : Accounts q held) (hs : held s ≠ 0) :
    0 < (q.objs s).inflight := by
  rw [h.inflight_eq]
  omega

theorem total_pos (h : Accounts q held) (he : e ∈ q.running) : 0 < q.inflightTotal := by
  rw [h.total_eq]
  have := List.length_pos_of_mem he
  omega

theorem inflight_nonneg (h : Accounts q held) (s : SessionRef) : 0 ≤ (q.objs s).inflight := by
  rw [h.inflight_eq]
  exact Int.add_nonneg (Int.natCast_nonneg _) (Int.natCast_nonneg _)

/-- A waiting entry is not in flight. -/
theorem not_mem_running (h : Accounts q held) (he : e ∈ q.queue) : e ∉ q.running := by
  intro hr
  have hdone := (h.running_done e hr).2
  rw [(h.queue_done e he).2] at hdone
  exact Bool.false_ne_true hdone

/-- The counters of a session object that no entry and no connection refers to. -/
theorem counters_fresh (h : Accounts q held) :
    q.waitingCount q.objs.next = 0 ∧ q.runningCount q.objs.next = 0 ∧ held q.objs.next = 0 := by
  refine ⟨?_, ?_, ?_⟩
  · rw [waitingCount, List.countP_eq_zero]
    intro e he
    simpa using Nat.ne_of_lt (h.session_lt e (h.queue_done e he).1)
  · rw [runningCount, List.countP_eq_zero]
    intro e he
    simpa using Nat.ne_of_lt (h.session_lt e (h.running_done e he).1)
  · by_contra hne
    exact Nat.lt_irrefl _ (h.held_lt _ hne)

/-! ### Operations that leave the counters alone -/

/-- The accounting reads the queue, the entries, the history, the total and the
counters of the session objects, and nothing else. -/
theorem congr (h : Accounts q held) (hqueue : q'.queue = q.queue)
    (hentries : q'.entries = q.entries) (hlog : q'.log = q.log)
    (htotal : q'.inflightTotal = q.inflightTotal) (hnext : q'.objs.next = q.objs.next)
    (hobjs : ∀ s, (q'.objs s).waiting = (q.objs s).waiting ∧
      (q'.objs s).inflight = (q.objs s).inflight) : Accounts q' held := by
  have hrunning : q'.running = q.running := congrArg runningOf hlog
  have hsession : q'.sessionOf = q.sessionOf := by
    funext e
    rw [sessionOf, sessionOf, hentries]
  constructor
  · rw [hqueue]; exact h.queue_nodup
  · rw [hrunning]; exact h.running_nodup
  · rw [hqueue, hentries]; exact h.queue_done
  · rw [hrunning, hentries]; exact h.running_done
  · rw [hentries, hsession, hnext]; exact h.session_lt
  · rw [hnext]; exact h.held_lt
  · intro s
    rw [(hobjs s).1, h.waiting_eq, waitingCount, waitingCount, hqueue, hsession]
  · intro s
    rw [(hobjs s).2, h.inflight_eq, runningCount, runningCount, hrunning, hsession]
  · rw [htotal, hrunning]; exact h.total_eq

/-- A cosmetic update of one session, with any change of the table, the spots and
the readiness. -/
theorem cosmetic (h : Accounts q held) {f : Session → Session} (hf : Session.Cosmetic f)
    (hqueue : q'.queue = q.queue) (hentries : q'.entries = q.entries) (hlog : q'.log = q.log)
    (htotal : q'.inflightTotal = q.inflightTotal) (hobjs : q'.objs = q.objs.modify s f) :
    Accounts q' held := by
  refine h.congr hqueue hentries hlog htotal (by rw [hobjs]; rfl) fun s' => ?_
  rw [hobjs]
  exact ⟨Heap.modify_proj Session.waiting _ _ f hf.waiting s',
    Heap.modify_proj Session.inflight _ _ f hf.inflight s'⟩

theorem freeSpot (h : Accounts q held) (s : SessionRef) (key : Key) :
    Accounts (q.freeSpot s key) held := by
  refine h.congr rfl rfl rfl rfl rfl fun s' => ?_
  rw [freeSpot_objs]
  exact ⟨Heap.modify_proj Session.waiting q.objs s Session.spotless (fun _ => rfl) s',
    Heap.modify_proj Session.inflight q.objs s Session.spotless (fun _ => rfl) s'⟩

theorem recomputeAt (h : Accounts q held) (s : SessionRef) (now : Time) :
    Accounts (q.recomputeAt s now) held :=
  h.cosmetic (Session.cosmetic_recompute q.cfg now) rfl rfl rfl rfl rfl

theorem getOrCreateSession (h : Accounts q held) (r : Requester) (now : Time) :
    Accounts (q.getOrCreateSession r now).2 held := by
  unfold EndpointQueue.getOrCreateSession
  split
  · obtain ⟨hwait, hrun, hheld⟩ := h.counters_fresh
    refine { h with
      session_lt := fun e he => Nat.lt_succ_of_lt (h.session_lt e he)
      held_lt := fun s hs => Nat.lt_succ_of_lt (h.held_lt s hs)
      waiting_eq := fun s => ?_
      inflight_eq := fun s => ?_ }
    · change (q.objs.alloc (Session.new r now) s).waiting = q.waitingCount s
      by_cases hs : s = q.objs.next
      · rw [hs, Heap.alloc_self, hwait]
        rfl
      · rw [Heap.alloc_of_ne _ _ hs, h.waiting_eq]
    · change (q.objs.alloc (Session.new r now) s).inflight = q.runningCount s + held s
      by_cases hs : s = q.objs.next
      · rw [hs, Heap.alloc_self, hrun, hheld]
        rfl
      · rw [Heap.alloc_of_ne _ _ hs, h.inflight_eq]
  · exact h.cosmetic (Session.cosmetic_revive r now) rfl rfl rfl rfl rfl

/-! ### The life of an entry -/

theorem newEntry (h : Accounts q held) (hs : s < q.objs.next) (path : String) (now : Time) :
    Accounts (q.newEntry s path now).2 held := by
  have hold : ∀ e, e < q.entries.next → (q.newEntry s path now).2.entries e = q.entries e :=
    fun e he => Heap.alloc_of_lt _ _ he
  have hsame : ∀ e, e < q.entries.next → (q.newEntry s path now).2.sessionOf e = q.sessionOf e :=
    fun e he => congrArg QueueEntry.session (hold e he)
  refine
    { queue_nodup := h.queue_nodup
      running_nodup := h.running_nodup
      queue_done := fun e he => ?_
      running_done := fun e he => ?_
      session_lt := fun e he => ?_
      held_lt := h.held_lt
      waiting_eq := fun s' => ?_
      inflight_eq := fun s' => ?_
      total_eq := h.total_eq }
  · rw [hold e (h.queue_done e he).1]
    exact ⟨Nat.lt_succ_of_lt (h.queue_done e he).1, (h.queue_done e he).2⟩
  · rw [hold e (h.running_done e he).1]
    exact ⟨Nat.lt_succ_of_lt (h.running_done e he).1, (h.running_done e he).2⟩
  · by_cases heq : e = q.entries.next
    · rw [heq, sessionOf, EndpointQueue.newEntry, Heap.alloc_self]
      exact hs
    · have hlt : e < q.entries.next := by
        have : e < q.entries.next + 1 := he
        omega
      rw [hsame e hlt]
      exact h.session_lt e hlt
  · refine (h.waiting_eq s').trans (congrArg Nat.cast (List.countP_congr fun e he => ?_))
    rw [hsame e (h.queue_done e he).1]
  · refine (h.inflight_eq s').trans
      (congrArg (fun n : Nat => (n : Int) + held s') (List.countP_congr fun e he => ?_))
    rw [hsame e (h.running_done e he).1]

theorem append (h : Accounts q held) (hlt : e < q.entries.next)
    (hdone : (q.entries e).done = false) (hmem : e ∉ q.queue) : Accounts (q.append e) held := by
  have hrun : (q.append e).running = q.running := runningOf_snoc_enqueued q.log e
  have hcount : ∀ s, (q.append e).waitingCount s =
      q.waitingCount s + if q.sessionOf e = s then 1 else 0 := by
    intro s
    change (q.queue ++ [e]).countP (fun e => q.sessionOf e = s) = _
    rw [List.countP_append, List.countP_singleton]
    simp [waitingCount]
  refine
    { queue_nodup := ?_
      running_nodup := by rw [hrun]; exact h.running_nodup
      queue_done := fun e' he' => ?_
      running_done := by rw [hrun]; exact h.running_done
      session_lt := h.session_lt
      held_lt := h.held_lt
      waiting_eq := fun s => ?_
      inflight_eq := fun s => ?_
      total_eq := by rw [hrun]; exact h.total_eq }
  · exact List.nodup_append.mpr ⟨h.queue_nodup, List.nodup_singleton e, by
      intro a ha b hb heq
      rw [List.mem_singleton] at hb
      exact hmem (hb ▸ heq ▸ ha)⟩
  · rcases List.mem_append.mp he' with he' | he'
    · exact h.queue_done e' he'
    · rw [List.mem_singleton.mp he']
      exact ⟨hlt, hdone⟩
  · rw [hcount, append_objs, Heap.modify_apply]
    split
    · rename_i heq
      subst heq
      simp [Session.queued, h.waiting_eq]
    · rename_i hne
      rw [h.waiting_eq, if_neg (Ne.symm hne), Nat.add_zero]
  · rw [append_objs, Heap.modify_proj Session.inflight _ _ (Session.queued _) (fun _ => rfl),
      h.inflight_eq, runningCount, runningCount, hrun]
    rfl

theorem promote (h : Accounts q held) (he : e ∈ q.queue) (now : Time) :
    Accounts (q.promote now e) held := by
  have hsession : (q.promote now e).sessionOf = q.sessionOf := funext (promote_sessionOf q now e)
  have hwait : ∀ s, (q.promote now e).waitingCount s + (if q.sessionOf e = s then 1 else 0) =
      q.waitingCount s := by
    intro s
    simp only [waitingCount, hsession, promote_queue]
    simpa using Counting.countP_erase_add (fun e => decide (q.sessionOf e = s)) he
  have hrun : ∀ s, (q.promote now e).runningCount s =
      q.runningCount s + if q.sessionOf e = s then 1 else 0 := by
    intro s
    rw [runningCount, hsession, promote_running, List.countP_append, List.countP_singleton]
    simp [runningCount]
  refine
    { queue_nodup := by rw [promote_queue]; exact h.queue_nodup.erase e
      running_nodup := ?_
      queue_done := fun e' he' => ?_
      running_done := fun e' he' => ?_
      session_lt := by rw [hsession, promote_entries, promote_objs]; exact h.session_lt
      held_lt := by rw [promote_objs]; exact h.held_lt
      waiting_eq := fun s => ?_
      inflight_eq := fun s => ?_
      total_eq := ?_ }
  · rw [promote_running]
    exact List.nodup_append.mpr ⟨h.running_nodup, List.nodup_singleton e, by
      intro a ha b hb heq
      rw [List.mem_singleton] at hb
      exact h.not_mem_running he (hb ▸ heq ▸ ha)⟩
  · rw [promote_queue, h.queue_nodup.mem_erase_iff] at he'
    rw [promote_entries, Heap.modify_of_ne _ _ he'.1]
    exact h.queue_done e' he'.2
  · rw [promote_running] at he'
    rw [promote_entries]
    rcases List.mem_append.mp he' with he' | he'
    · have hne : e' ≠ e := fun heq => h.not_mem_running he (heq ▸ he')
      rw [Heap.modify_of_ne _ _ hne]
      exact h.running_done e' he'
    · rw [List.mem_singleton.mp he', Heap.modify_self]
      exact ⟨(h.queue_done e he).1, rfl⟩
  · have hcount := hwait s
    rw [promote_objs, Heap.modify_apply]
    split
    · rename_i heq
      subst heq
      rw [if_pos rfl] at hcount
      simp only [Session.promoted, h.waiting_eq]
      omega
    · rename_i hne
      rw [if_neg (Ne.symm hne)] at hcount
      rw [h.waiting_eq]
      omega
  · rw [hrun, promote_objs, Heap.modify_apply]
    split
    · rename_i heq
      subst heq
      simp only [Session.promoted, h.inflight_eq, if_pos]
      omega
    · rename_i hne
      rw [if_neg (Ne.symm hne), h.inflight_eq, Nat.add_zero]
  · rw [promote_inflightTotal, promote_running, h.total_eq, List.length_append]
    simp

theorem abandon (h : Accounts q held) (he : e ∈ q.queue) : Accounts (q.abandon e) held := by
  have hdone := (h.queue_done e he).2
  have hpos := h.waiting_pos he
  have heq : q.abandon e = { q with
      queue := q.queue.erase e
      objs := q.objs.modify (q.sessionOf e) Session.unqueued
      log := q.log ++ [.abandoned e] } := by
    simp only [EndpointQueue.abandon, hdone]
    rfl
  have hqueue : (q.abandon e).queue = q.queue.erase e := by rw [heq]
  have hentries : (q.abandon e).entries = q.entries := by rw [heq]
  have hobjs : (q.abandon e).objs = q.objs.modify (q.sessionOf e) Session.unqueued := by rw [heq]
  have hsession : (q.abandon e).sessionOf = q.sessionOf := by rw [heq]; rfl
  have hrun : (q.abandon e).running = q.running := by
    rw [heq]
    exact runningOf_snoc_abandoned q.log e
  have hwait : ∀ s, (q.abandon e).waitingCount s + (if q.sessionOf e = s then 1 else 0) =
      q.waitingCount s := by
    intro s
    simp only [waitingCount, hqueue, hsession]
    simpa using Counting.countP_erase_add (fun e => decide (q.sessionOf e = s)) he
  refine
    { queue_nodup := by rw [hqueue]; exact h.queue_nodup.erase e
      running_nodup := by rw [hrun]; exact h.running_nodup
      queue_done := fun e' he' => ?_
      running_done := by rw [hrun, hentries]; exact h.running_done
      session_lt := by rw [hsession, hentries, hobjs]; exact h.session_lt
      held_lt := by rw [hobjs]; exact h.held_lt
      waiting_eq := fun s => ?_
      inflight_eq := fun s => ?_
      total_eq := by rw [hrun, heq]; exact h.total_eq }
  · rw [hqueue] at he'
    rw [hentries]
    exact h.queue_done e' (List.mem_of_mem_erase he')
  · have hcount := hwait s
    rw [hobjs, Heap.modify_apply]
    split
    · rename_i hs
      subst hs
      rw [if_pos rfl] at hcount
      have := h.waiting_eq (q.sessionOf e)
      simp only [Session.unqueued]
      omega
    · rename_i hne
      rw [if_neg (Ne.symm hne)] at hcount
      rw [h.waiting_eq]
      omega
  · rw [hobjs, Heap.modify_proj Session.inflight _ _ Session.unqueued (fun _ => rfl),
      h.inflight_eq, runningCount, runningCount, hrun, hsession]

theorem finish (h : Accounts q held) (he : e ∈ q.running) (now : Time) :
    Accounts (q.finish e now) held := by
  have hpos := h.inflight_pos he
  have htotal := h.total_pos he
  have hrun : (q.finish e now).running = q.running.erase e := runningOf_snoc_released q.log e
  have hcount : ∀ s, (q.finish e now).runningCount s + (if q.sessionOf e = s then 1 else 0) =
      q.runningCount s := by
    intro s
    have hsession : (q.finish e now).sessionOf = q.sessionOf := rfl
    simp only [runningCount, hrun, hsession]
    simpa using Counting.countP_erase_add (fun e => decide (q.sessionOf e = s)) he
  refine
    { queue_nodup := h.queue_nodup
      running_nodup := by rw [hrun]; exact h.running_nodup.erase e
      queue_done := h.queue_done
      running_done := fun e' he' => ?_
      session_lt := by rw [finish_objs]; exact h.session_lt
      held_lt := by rw [finish_objs]; exact h.held_lt
      waiting_eq := fun s => ?_
      inflight_eq := fun s => ?_
      total_eq := ?_ }
  · rw [hrun] at he'
    exact h.running_done e' (List.mem_of_mem_erase he')
  · rw [finish_objs, Heap.modify_proj Session.waiting _ _ (Session.finished now) (fun _ => rfl),
      h.waiting_eq]
    rfl
  · have hs := hcount s
    rw [finish_objs, Heap.modify_apply]
    split
    · rename_i heq
      subst heq
      rw [if_pos rfl] at hs
      have := h.inflight_eq (q.sessionOf e)
      simp only [Session.finished, if_pos hpos]
      omega
    · rename_i hne
      rw [if_neg (Ne.symm hne)] at hs
      rw [h.inflight_eq]
      omega
  · have hlen := List.length_erase_of_mem he
    have hlpos := List.length_pos_of_mem he
    have := h.total_eq
    rw [hrun, hlen]
    simp only [EndpointQueue.finish, hpos, decide_true, if_true]
    omega

end Accounts

end EndpointQueue

end Relay
