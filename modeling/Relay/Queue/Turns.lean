import Relay.Queue.Fifo

/-!
# Relay.Queue.Turns

**Who waits for a spot, and in which order.** HTTP entries wait in the queue of the endpoint,
connections each for themselves. A list of `Turn`s is the order in which they have begun to.

`InLine order q` says that the entries of the queue stand in the order as they stand in the queue.
Whatever connections do, the entry that takes a free spot is then the first in line of the
entries that need one (`InLine.first_eq`). `SpotsFrom` lists the spots a queue gives.
-/

namespace Relay

/-! ### Who waits -/

/-- What waits for a spot: an HTTP entry, or the connection of a task. -/
inductive Waiter
  | entry (e : EntryRef)
  | socket (i : Nat)
  deriving DecidableEq, Repr

/-- What waits, and the session it waits for. -/
structure Turn where
  waiter : Waiter
  session : SessionRef
  deriving DecidableEq, Repr

namespace Turn

/-- The entry, unless a connection waits. -/
def entryRef? (turn : Turn) : Option EntryRef :=
  match turn.waiter with
  | .entry e => some e
  | .socket _ => none

theorem entryRef?_eq_some_iff {turn : Turn} {e : EntryRef} :
    turn.entryRef? = some e ↔ turn = ⟨.entry e, turn.session⟩ := by
  obtain ⟨waiter, s⟩ := turn
  cases waiter <;> simp [entryRef?]

/-- The entries in an order. -/
def entriesOf (order : List Turn) : List EntryRef := order.filterMap entryRef?

theorem mem_entriesOf {order : List Turn} {e : EntryRef} :
    e ∈ entriesOf order ↔ ∃ s, ⟨.entry e, s⟩ ∈ order := by
  rw [entriesOf, List.mem_filterMap]
  constructor
  · rintro ⟨turn, hturn, he⟩
    exact ⟨turn.session, entryRef?_eq_some_iff.mp he ▸ hturn⟩
  · rintro ⟨s, hs⟩
    exact ⟨_, hs, rfl⟩

theorem entriesOf_snoc_socket (order : List Turn) (i : Nat) (s : SessionRef) :
    entriesOf (order ++ [⟨.socket i, s⟩]) = entriesOf order := by
  rw [entriesOf, List.filterMap_append]
  exact List.append_nil _

theorem entriesOf_snoc_entry (order : List Turn) (e : EntryRef) (s : SessionRef) :
    entriesOf (order ++ [⟨.entry e, s⟩]) = entriesOf order ++ [e] := by
  rw [entriesOf, List.filterMap_append]
  rfl

end Turn

namespace EndpointQueue

/-- The session has no usable spot. -/
def spotless (q : EndpointQueue) (s : SessionRef) : Bool := (q.spotKey (q.objs s)).isNone

/-- The entries of the queue stand in the order, as they stand in the queue. -/
structure InLine (order : List Turn) (q : EndpointQueue) : Prop where
  sorted : q.queue.Pairwise (· < ·)
  order_sorted : (Turn.entriesOf order).Pairwise (· < ·)
  order_lt : ∀ e ∈ Turn.entriesOf order, e < q.entries.next
  mem : ∀ e ∈ q.queue, ⟨.entry e, q.sessionOf e⟩ ∈ order
  session : ∀ e s, ⟨.entry e, s⟩ ∈ order → q.sessionOf e = s

variable {order : List Turn} {q q' : EndpointQueue} {e : EntryRef} {s : SessionRef} {now : Time}

theorem InLine.congr (h : InLine order q) (hqueue : q'.queue.Sublist q.queue)
    (hsession : ∀ e, q'.sessionOf e = q.sessionOf e) (hnext : q'.entries.next = q.entries.next) :
    InLine order q' where
  sorted := h.sorted.sublist hqueue
  order_sorted := h.order_sorted
  order_lt := fun e he => hnext ▸ h.order_lt e he
  mem := fun e he => hsession e ▸ h.mem e (hqueue.subset he)
  session := fun e s he => (hsession e).trans (h.session e s he)

theorem InLine.promote (h : InLine order q) (now : Time) (e : EntryRef) :
    InLine order (q.promote now e) := by
  refine h.congr ?_ (promote_sessionOf q now e) ?_
  · rw [promote_queue]
    exact List.erase_sublist
  · rw [promote_entries]
    rfl

/-- Neither the queue nor an entry changes. -/
theorem InLine.keep (h : InLine order q) (hqueue : q'.queue = q.queue)
    (hentries : q'.entries = q.entries) : InLine order q' := by
  refine h.congr ?_ (fun e => ?_) ?_
  · rw [hqueue]
  · rw [sessionOf, sessionOf, hentries]
  · rw [hentries]

theorem managed_inLine : Managed (InLine order) where
  promote := fun _ e now h _ => h.promote now e
  freeSpot := fun _ _ _ h _ => h.keep rfl rfl
  forget := fun _ _ _ h _ _ => h.keep rfl rfl
  cosmetic := fun _ _ _ h _ => h.keep rfl rfl
  setReady := fun _ _ h => h.keep rfl rfl

theorem InLine.finish (h : InLine order q) (e : EntryRef) (now : Time) :
    InLine order (q.finish e now) :=
  h.keep rfl rfl

theorem InLine.abandon (h : InLine order q) (e : EntryRef) : InLine order (q.abandon e) := by
  unfold EndpointQueue.abandon
  split
  · exact h
  · exact h.congr List.erase_sublist (fun _ => rfl) rfl

theorem InLine.getOrCreateSession (h : InLine order q) (r : Requester) (now : Time) :
    InLine order (q.getOrCreateSession r now).2 := by
  unfold EndpointQueue.getOrCreateSession
  split <;> exact h.keep rfl rfl

/-- A connection begins to wait. -/
theorem InLine.socket (h : InLine order q) (i : Nat) (s : SessionRef) :
    InLine (order ++ [⟨.socket i, s⟩]) q where
  sorted := h.sorted
  order_sorted := (Turn.entriesOf_snoc_socket order i s).symm ▸ h.order_sorted
  order_lt := (Turn.entriesOf_snoc_socket order i s).symm ▸ h.order_lt
  mem := fun e he => List.mem_append_left _ (h.mem e he)
  session := by simpa using h.session

/-- An entry begins to wait. -/
theorem InLine.join (h : InLine order q) (s : SessionRef) (path : String) (now : Time) :
    InLine (order ++ [⟨.entry q.entries.next, s⟩])
      ((q.newEntry s path now).2.append (q.newEntry s path now).1) := by
  have hold : ∀ e < q.entries.next,
      (q.newEntry s path now).2.sessionOf e = q.sessionOf e := fun e he =>
    congrArg QueueEntry.session (Heap.alloc_of_ne _ _ (Nat.ne_of_lt he))
  have hnew : (q.newEntry s path now).2.sessionOf q.entries.next = s :=
    congrArg QueueEntry.session (Heap.alloc_self _ _)
  -- the new entry has the highest number and stands last, in the queue and in the order
  have hqueue : ∀ e ∈ q.queue, e < q.entries.next := fun e he =>
    h.order_lt e (Turn.mem_entriesOf.mpr ⟨_, h.mem e he⟩)
  exact
    { sorted := List.pairwise_append.mpr ⟨h.sorted, List.pairwise_singleton _ _,
        fun e he e' he' => List.mem_singleton.mp he' ▸ hqueue e he⟩
      order_sorted := by
        rw [Turn.entriesOf_snoc_entry]
        exact List.pairwise_append.mpr ⟨h.order_sorted, List.pairwise_singleton _ _,
          fun e he e' he' => List.mem_singleton.mp he' ▸ h.order_lt e he⟩
      order_lt := by
        intro e he
        rw [Turn.entriesOf_snoc_entry] at he
        rcases List.mem_append.mp he with he | he
        · exact Nat.lt_succ_of_lt (h.order_lt e he)
        · exact List.mem_singleton.mp he ▸ Nat.lt_succ_self _
      mem := by
        intro e he
        rcases List.mem_append.mp he with he | he
        · have hsession : (q.newEntry s path now).2.sessionOf e = q.sessionOf e :=
            hold e (hqueue e he)
          exact List.mem_append_left _ (hsession ▸ h.mem e he)
        · obtain rfl : e = q.entries.next := List.mem_singleton.mp he
          have hsession : ((q.newEntry s path now).2.append q.entries.next).sessionOf
              q.entries.next = s := hnew
          refine List.mem_append_right _ (List.mem_singleton.mpr ?_)
          exact congrArg (Turn.mk _) hsession
      session := by
        intro e s' hs'
        rcases List.mem_append.mp hs' with hs' | hs'
        · exact (hold e (h.order_lt e (Turn.mem_entriesOf.mpr ⟨s', hs'⟩))).trans
            (h.session e s' hs')
        · obtain ⟨he, rfl⟩ : e = q.entries.next ∧ s' = s := by simpa using hs'
          exact he ▸ hnew }

/-- A session that has no usable spot may take a free one when another may. -/
theorem eligible_of_spotless {e a : EntryRef} (helig : q.eligible e = true)
    (he : q.spotless (q.sessionOf e) = true) (ha : q.spotless (q.sessionOf a) = true) :
    q.eligible a = true := by
  have he' : (q.spotKey (q.objs (q.sessionOf e))).isSome = false := by simpa [spotless] using he
  have ha' : (q.spotKey (q.objs (q.sessionOf a))).isSome = false := by simpa [spotless] using ha
  -- without a usable spot, `_eligible` reads nothing of the session
  unfold eligible at helig ⊢
  simpa [he', ha'] using helig

/-- The entry that takes a free spot is the first in line of the entries that need one. -/
theorem InLine.first (h : InLine order q) (hsel : Selected q e)
    (he : q.spotless (q.sessionOf e) = true) {a : EntryRef} (ha : a ∈ q.queue)
    (hspotless : q.spotless (q.sessionOf a) = true) : a = e ∨ e < a :=
  Drain.eq_or_lt_of_find? h.sorted hsel.first ha
    (eligible_of_spotless hsel.eligible he hspotless)

/-- Where an entry is the first in line without a usable spot, it is the one that takes a free
spot. -/
theorem InLine.first_eq (h : InLine order q) (hsel : Selected q e)
    (he : q.spotless (q.sessionOf e) = true) {waits : Turn → Bool}
    (hwaits : ∀ a s, waits ⟨.entry a, s⟩ = decide (a ∈ q.queue)) {a : EntryRef}
    (hfirst : (order.filter waits).find? (fun turn => q.spotless turn.session) =
      some ⟨.entry a, s⟩) : a = e := by
  obtain ⟨hmem, hwaiting⟩ := List.mem_filter.mp (List.mem_of_find?_eq_some hfirst)
  have ha : a ∈ q.queue := of_decide_eq_true (hwaits a s ▸ hwaiting)
  have hspotless : q.spotless (q.sessionOf a) = true := by
    have hfound := List.find?_some hfirst
    rw [h.session a s hmem]
    exact hfound
  rcases h.first hsel he ha hspotless with rfl | hlt
  · rfl
  · -- the entry stands behind `a` in the line, so it has come later
    obtain ⟨-, ahead, behind, hline, hahead⟩ := List.find?_eq_some_iff_append.mp hfirst
    have hturn : ⟨.entry e, q.sessionOf e⟩ ∈ order.filter waits :=
      List.mem_filter.mpr ⟨h.mem e hsel.mem, by simp [hwaits, hsel.mem]⟩
    have hsorted := (List.pairwise_filterMap.mp h.order_sorted).filter waits
    rw [hline] at hturn hsorted
    rcases List.mem_append.mp hturn with hturn | hturn
    · have hnot := hahead _ hturn
      simp [he] at hnot
    · rcases List.mem_cons.mp hturn with heq | hturn
      · obtain rfl : e = a := Waiter.entry.inj (congrArg Turn.waiter heq)
        exact absurd hlt (Nat.lt_irrefl e)
      · have hrest := (List.pairwise_append.mp hsorted).2.1
        have hgt : a < e := (List.pairwise_cons.mp hrest).1 _ hturn a rfl e rfl
        exact absurd hlt (Nat.lt_asymm hgt)

/-! ### The spots a queue gives -/

/-- A relation between the promotions made and the spots before and after, made of what may happen
to the spots: nothing, one is given up, an entry is promoted. -/
structure Spotwise
    (R : List (EndpointQueue × EntryRef) → EndpointQueue → EndpointQueue → Prop) : Prop where
  same : ∀ q q', q'.spots = q.spots → R [] q q'
  erase : ∀ q q' key, q'.spots = q.spots.erase key → R [] q q'
  promote : ∀ q now e, R [(q, e)] q (q.promote now e)
  trans : ∀ ps ps' q q' q'', R ps q q' → R ps' q' q'' → R (ps ++ ps') q q''

namespace Spotwise

variable {R : List (EndpointQueue × EntryRef) → EndpointQueue → EndpointQueue → Prop}

theorem tryPromote (hR : Spotwise R) (q : EndpointQueue) (now : Time) :
    R (q.promotions now) q (q.tryPromote now) := by
  unfold EndpointQueue.tryPromote promotions
  split
  · have hstep : ∀ (ps : List (EndpointQueue × EntryRef)) (q₁ : EndpointQueue) (e : EntryRef)
        (q₂ : EndpointQueue), R ps q q₁ → promoteNext now q₁ = some (e, q₂) →
        R (ps ++ [(q₁, e)]) q q₂ := by
      intro ps q₁ e q₂ h hnext
      obtain ⟨-, rfl⟩ := promoteNext_eq_some hnext
      exact hR.trans _ _ _ _ _ h (hR.promote q₁ now e)
    simpa using Drain.drain_history hstep q.queue.length [] q (hR.same q q rfl)
  · exact hR.same q q rfl

/-- A promotion loop in a state whose spots are those of `q`. -/
theorem tryPromote_of_same (hR : Spotwise R) (q q' : EndpointQueue) (h : q'.spots = q.spots)
    (now : Time) : R (q'.promotions now) q (q'.tryPromote now) :=
  hR.trans _ _ _ _ _ (hR.same q q' h) (hR.tryPromote q' now)

/-- A promotion loop in a state in which one spot has been given up. -/
theorem tryPromote_of_erase (hR : Spotwise R) {q q' : EndpointQueue} (key : Key)
    (h : q'.spots = q.spots.erase key) (now : Time) :
    R (q'.promotions now) q (q'.tryPromote now) :=
  hR.trans _ _ _ _ _ (hR.erase q q' key h) (hR.tryPromote q' now)

theorem visit (hR : Spotwise R) (now : Time) (promoteAt : Key → Time)
    (v : EndpointQueue × Key × SessionRef) :
    R (visitPromotions now promoteAt v) v.1
      (v.1.visit now (promoteAt v.2.1) v.2.1 v.2.2).1 := by
  unfold visitPromotions
  rcases visit_cases v.1 now (promoteAt v.2.1) v.2.1 v.2.2 with
    ⟨hsur, heq⟩ | ⟨hsur, -, -, -, heq⟩ | ⟨hsur, -, heq⟩
  · rw [heq, if_pos hsur]
    exact hR.tryPromote_of_erase v.2.1 rfl _
  · rw [heq, hsur]
    exact hR.same _ _ rfl
  · rw [heq, hsur]
    exact hR.same _ _ rfl

theorem tickLoop (hR : Spotwise R) (now : Time) (promoteAt : Key → Time)
    (rest : List (Key × SessionRef)) (q : EndpointQueue) :
    R ((visitsOf now promoteAt q rest).flatMap (visitPromotions now promoteAt)) q
      (tickLoop now promoteAt q rest).1 := by
  induction rest generalizing q with
  | nil => exact hR.same q q rfl
  | cons p rest ih =>
      obtain ⟨key, s⟩ := p
      exact hR.trans _ _ _ _ _ (hR.visit now promoteAt (q, key, s)) (ih _)

/-- What becomes of the spots in an operation. -/
theorem step (hR : Spotwise R) {op : QueueOp} (h : q.step op = some q') :
    R (q.promotionsOf op) q q' := by
  cases op with
  | admitQueued r path sessionAt queuedAt promoteAt =>
      obtain rfl := Option.some.inj h
      let prepared := q.prepare r path sessionAt queuedAt
      exact hR.tryPromote_of_same q (prepared.2.append prepared.1)
        (getOrCreateSession_spots q r sessionAt) promoteAt
  | abandon e =>
      obtain ⟨-, hq'⟩ := Option.ite_none_right_eq_some.mp h
      obtain rfl := Option.some.inj hq'
      refine hR.same _ _ ?_
      unfold abandon
      split <;> rfl
  | release e now promoteAt =>
      obtain ⟨-, hq'⟩ := Option.ite_none_right_eq_some.mp h
      obtain rfl := Option.some.inj hq'
      exact hR.tryPromote_of_same q (q.finish e now) rfl promoteAt
  | releaseSession client sessionId promoteAt =>
      obtain rfl := Option.some.inj h
      rcases releaseSession_cases q client sessionId promoteAt with ⟨s, hs, hheld, heq⟩ | ⟨hno, heq⟩
      · rw [heq, promotionsOf_releaseSession_of_held hs hheld]
        exact hR.tryPromote_of_erase (client, sessionId) rfl promoteAt
      · rw [heq, promotionsOf_releaseSession_of_not_held hno]
        exact hR.same _ _ rfl
  | tick now promoteAt =>
      obtain rfl := Option.some.inj h
      exact hR.tickLoop now promoteAt q.sessions.entries q
  | setReady ready =>
      obtain rfl := Option.some.inj h
      exact hR.same _ _ rfl
  | tryPromote now =>
      obtain rfl := Option.some.inj h
      exact hR.tryPromote q now
  | setClientStatus s status detail at' =>
      obtain ⟨-, hq'⟩ := Option.ite_none_right_eq_some.mp h
      obtain rfl := Option.some.inj hq'
      exact hR.same _ _ rfl
  | setSharedSpotKey s key =>
      obtain ⟨-, hq'⟩ := Option.ite_none_right_eq_some.mp h
      obtain rfl := Option.some.inj hq'
      exact hR.same _ _ rfl

end Spotwise

/-- The spots that are new in `q'` were taken in the promotions of the list. -/
def SpotsFrom (promotions : List (EndpointQueue × EntryRef)) (q q' : EndpointQueue) : Prop :=
  ∀ k ∈ q'.spots, k ∈ q.spots ∨ ∃ p ∈ promotions, p.1.acquires p.2 = true ∧ p.1.keyOf p.2 = k

theorem spotwise_spotsFrom : Spotwise SpotsFrom where
  same := fun q q' h k hk => Or.inl (h ▸ hk)
  erase := fun q q' key h k hk => Or.inl (OrdDict.mem_erase.mp (h ▸ hk)).2
  promote := by
    intro q now e k hk
    rw [promote_spots] at hk
    split at hk
    · rename_i hacq
      rcases OrdDict.mem_insert.mp hk with rfl | hk
      · exact Or.inr ⟨_, List.mem_singleton_self _, hacq, rfl⟩
      · exact Or.inl hk
    · exact Or.inl hk
  trans := by
    intro ps ps' q q' q'' h h' k hk
    rcases h' k hk with hk | ⟨p, hp, hrest⟩
    · rcases h k hk with hk | ⟨p, hp, hrest⟩
      · exact Or.inl hk
      · exact Or.inr ⟨p, List.mem_append_left _ hp, hrest⟩
    · exact Or.inr ⟨p, List.mem_append_right _ hp, hrest⟩

end EndpointQueue

end Relay
