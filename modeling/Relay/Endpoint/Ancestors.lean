import Relay.Clients.Lineage
import Relay.Endpoint.Poll
import Relay.Endpoint.Reports

/-!
# Relay.Endpoint.Ancestors

**Which sessions a poll lets run on the spot of an ancestor.** The turn of a session resolves its
shared spot along the parents cached by then: those known as the poll started, and those the poll
has looked up, which are parents of tracked sessions. `Turned` says what a poll has done when a
session's turn comes.

A session that is entitled to the spot of its closest tracked ancestor therefore gets it exactly
when the parents of the untracked sessions between the two were known as the poll started: the
poll itself never looks them up. No session gets a spot that no ancestor has.
-/

namespace Relay

open EndpointQueue (Filed Named)

namespace EndpointQueue

variable {q : EndpointQueue} {anc : SessionRef}

/-- An ancestor that holds its spot offers that. -/
theorem offeredSpot_of_mem (h : (q.objs anc).key ∈ q.spots) :
    q.offeredSpot anc = (q.objs anc).key := by
  unfold offeredSpot spotKey
  rw [if_pos h, Option.getD_some]

/-- One that has no spot to run on offers none that is held. -/
theorem offeredSpot_not_mem (h : q.spotKey (q.objs anc) = none) :
    q.offeredSpot anc ∉ q.spots := by
  unfold offeredSpot
  rw [h, Option.getD_none]
  intro hmem
  unfold spotKey at h
  rw [if_pos hmem] at h
  exact absurd h (by simp)

end EndpointQueue

namespace Desk

variable {lineage : String → Lineage} {m : Machine} {lookups : SessionRef → HttpAnswer SessionInfo}
  {poll : Poll} {reports : List DirectoryReport} {D D' : Desk} {s s' : SessionRef}
  {pre post : List SessionRef}

/-! ### What a turn writes -/

@[simp] theorem pollerOf_setPoller (D : Desk) (m : Machine) (P : Poller) :
    (D.setPoller m P).pollerOf m = P := by
  simp [pollerOf, setPoller]

theorem share_objs_of_ne (D : Desk) (m : Machine) (h : s' ≠ s) :
    (D.share m s).queue.objs s' = D.queue.objs s' := by
  unfold share EndpointQueue.setSharedSpotKey
  dsimp only
  exact Heap.modify_of_ne _ _ h

theorem share_objs_self (D : Desk) (m : Machine) (s : SessionRef) :
    (D.share m s).queue.objs s = (D.queue.objs s).sharing
      (if (D.pollerOf m).parentChain then
        D.queue.resolveSharedSpot m.base (D.queue.objs s).sessionId (D.pollerOf m).sessionParent
          (D.queue.objs s).client (D.pollerOf m).childrenDepth
      else none) := by
  unfold share EndpointQueue.setSharedSpotKey
  dsimp only
  exact Heap.modify_self _ _ _

/-- A turn concerns one session. -/
theorem turn_objs_of_ne (D : Desk) (h : s' ≠ s) :
    (turn m lookups D s).queue.objs s' = D.queue.objs s' := by
  unfold turn
  split
  · exact share_objs_of_ne D m h
  · cases fetchSessionInfo (lookups s) with
    | none => rfl
    | some info => exact share_objs_of_ne _ m h

theorem turns_objs_of_not_mem (D : Desk) {sessions : List SessionRef} (h : s ∉ sessions) :
    (D.turns m lookups sessions).queue.objs s = D.queue.objs s := by
  induction sessions generalizing D with
  | nil => rfl
  | cons s' rest ih =>
      have hne : s ≠ s' := fun heq => h (heq ▸ List.mem_cons_self)
      exact (ih (turn m lookups D s') fun hmem => h (List.mem_cons_of_mem _ hmem)).trans
        (turn_objs_of_ne D hne)

/-! ### The state in which a turn comes -/

/-- The clients answer every lookup of the poll, and truthfully. -/
def Answered (D : Desk) (lineage : String → Lineage) (m : Machine)
    (lookups : SessionRef → HttpAnswer SessionInfo) : Prop :=
  ∀ s ∈ m.sessions, (m.base, (D.queue.objs s).sessionId) ∉ (D.pollerOf m).sessionDir →
    ∃ directory, fetchSessionInfo (lookups s) =
      some (directory, (lineage m.base).parent (D.queue.objs s).sessionId)

/-- The poll, which started at `D`, has come to `D'` in its turns. It has written shared spots
only, and it knows what was known and what its own lookups have taught. -/
structure Turned (lineage : String → Lineage) (m : Machine) (D D' : Desk) : Prop where
  sessions : D'.queue.sessions = D.queue.sessions
  spots : D'.queue.spots = D.queue.spots
  objs : ∀ s, ∃ key, D'.queue.objs s = (D.queue.objs s).sharing key
  parentChain : (D'.pollerOf m).parentChain = (D.pollerOf m).parentChain
  childrenDepth : (D'.pollerOf m).childrenDepth = (D.pollerOf m).childrenDepth
  truthful : (D'.pollerOf m).Truthful lineage
  sessionDir : ∀ k ∈ (D.pollerOf m).sessionDir, k ∈ (D'.pollerOf m).sessionDir
  sessionParent : ∀ k ∈ (D.pollerOf m).sessionParent, k ∈ (D'.pollerOf m).sessionParent
  learnt : ∀ k ∈ (D'.pollerOf m).sessionParent, k ∈ (D.pollerOf m).sessionParent ∨
    ∃ s ∈ m.sessions, k = (m.base, (D.queue.objs s).sessionId)

namespace Turned

theorem stamped (poll : Poll) (h : (D.pollerOf poll.machine).Truthful lineage) :
    Turned lineage poll.machine D (D.stamped poll) := by
  have hpoller : (D.stamped poll).pollerOf poll.machine =
      (D.pollerOf poll.machine).stamp poll.machine.base poll.startedAt :=
    pollerOf_setPoller _ _ _
  constructor
  · rfl
  · rfl
  · exact fun s => ⟨_, rfl⟩
  · rw [hpoller]; rfl
  · rw [hpoller]; rfl
  · rw [hpoller]; exact h.stamp _ _
  · rw [hpoller]; exact fun _ hk => hk
  · rw [hpoller]; exact fun _ hk => hk
  · rw [hpoller]; exact fun _ hk => Or.inl hk

theorem sessionId (h : Turned lineage m D D') (s : SessionRef) :
    (D'.queue.objs s).sessionId = (D.queue.objs s).sessionId := by
  obtain ⟨key, hkey⟩ := h.objs s
  rw [hkey]
  rfl

theorem share (h : Turned lineage m D D') (s : SessionRef) :
    Turned lineage m D (D'.share m s) where
  sessions := h.sessions
  spots := h.spots
  objs := by
    intro s'
    by_cases hs : s' = s
    · subst hs
      obtain ⟨key, hkey⟩ := h.objs s'
      rw [share_objs_self, hkey]
      exact ⟨_, rfl⟩
    · rw [share_objs_of_ne D' m hs]
      exact h.objs s'
  parentChain := h.parentChain
  childrenDepth := h.childrenDepth
  truthful := h.truthful
  sessionDir := h.sessionDir
  sessionParent := h.sessionParent
  learnt := h.learnt

/-- A truthful lookup of a session of the machine. -/
theorem learn (h : Turned lineage m D D') (hs : s ∈ m.sessions) (directory : String) :
    Turned lineage m D (D'.setPoller m ((D'.pollerOf m).learn m.base (D'.queue.objs s).sessionId
      (directory, (lineage m.base).parent (D'.queue.objs s).sessionId))) := by
  constructor
  · exact h.sessions
  · exact h.spots
  · exact h.objs
  · rw [pollerOf_setPoller]; exact h.parentChain
  · rw [pollerOf_setPoller]; exact h.childrenDepth
  · rw [pollerOf_setPoller]; exact h.truthful.learn _ _ _
  · rw [pollerOf_setPoller]
    exact fun k hk => OrdDict.mem_insert.mpr (Or.inr (h.sessionDir k hk))
  · rw [pollerOf_setPoller]
    exact fun k hk => Poller.mem_learn_sessionParent.mpr (Or.inr (h.sessionParent k hk))
  · rw [pollerOf_setPoller]
    intro k hk
    rcases Poller.mem_learn_sessionParent.mp hk with rfl | hold
    · exact Or.inr ⟨s, hs, by rw [h.sessionId]⟩
    · exact h.learnt k hold

/-- Whether it is cached or looked up, the session's parent is known as its spot is resolved. -/
theorem turn_eq (h : Turned lineage m D D') (hanswered : D.Answered lineage m lookups)
    (hs : s ∈ m.sessions) : ∃ D₁, Turned lineage m D D₁ ∧ D₁.queue = D'.queue ∧
      (m.base, (D.queue.objs s).sessionId) ∈ (D₁.pollerOf m).sessionParent ∧
      turn m lookups D' s = D₁.share m s := by
  rw [← h.sessionId s]
  unfold turn
  cases hcached : (D'.pollerOf m).sessionDir.get? (m.base, (D'.queue.objs s).sessionId) with
  | some directory => exact ⟨D', h, rfl, h.truthful.known _ (OrdDict.mem_of_get? hcached), rfl⟩
  | none =>
      have huncached : (m.base, (D.queue.objs s).sessionId) ∉ (D.pollerOf m).sessionDir := by
        intro hmem
        rw [← h.sessionId s] at hmem
        exact OrdDict.get?_eq_none_iff.mp hcached (h.sessionDir _ hmem)
      obtain ⟨directory, hlookup⟩ := hanswered s hs huncached
      rw [← h.sessionId s] at hlookup
      refine ⟨_, h.learn hs directory, rfl, ?_, by rw [hlookup]; rfl⟩
      rw [pollerOf_setPoller]
      exact Poller.mem_learn_sessionParent.mpr (Or.inl rfl)

theorem turns (h : Turned lineage m D D') (hanswered : D.Answered lineage m lookups)
    {sessions : List SessionRef} (hsessions : ∀ s ∈ sessions, s ∈ m.sessions) :
    Turned lineage m D (D'.turns m lookups sessions) := by
  induction sessions generalizing D' with
  | nil => exact h
  | cons s rest ih =>
      obtain ⟨D₁, hD₁, -, -, hturn⟩ := h.turn_eq hanswered (hsessions s List.mem_cons_self)
      have hnext : Turned lineage m D (turn m lookups D' s) := by
        rw [hturn]
        exact hD₁.share s
      exact ih hnext fun s' hs' => hsessions s' (List.mem_cons_of_mem _ hs')

/-- The poll after its last turn. -/
theorem shared (h : (D.pollerOf poll.machine).Truthful lineage)
    (hanswered : D.Answered lineage poll.machine lookups) :
    Turned lineage poll.machine D (D.shared poll lookups) :=
  (Turned.stamped poll h).turns hanswered fun _ hs => hs

end Turned

/-! ### What a poll leaves -/

/-- What no merge changes, the merges of a poll do not. -/
theorem reported_view {α : Type} (view : EndpointQueue → α)
    (hview : ∀ q sessions data pending reported,
      view (EndpointQueue.mergeReports q sessions data pending reported) = view q)
    (D : Desk) (reports : List DirectoryReport) :
    view (D.reported reports).queue = view D.queue := by
  unfold reported
  induction reports generalizing D with
  | nil => rfl
  | cons r rest ih =>
      refine (ih { D with
        queue := D.queue.mergeReports r.sessions r.data r.pending r.reported }).trans ?_
      exact hview D.queue r.sessions r.data r.pending r.reported

theorem reported_sharedSpotKey (D : Desk) (reports : List DirectoryReport) (s : SessionRef) :
    ((D.reported reports).queue.objs s).sharedSpotKey = (D.queue.objs s).sharedSpotKey := by
  have hview : ∀ q sessions data pending reported,
      ((EndpointQueue.mergeReports q sessions data pending reported).objs s).sharedSpotKey =
        (q.objs s).sharedSpotKey := by
    intro q sessions data pending reported
    rw [EndpointQueue.mergeReports_objs]
    split
    · exact Session.report_proj Session.sharedSpotKey (fun _ _ _ _ => rfl) _ _ _ _
    · rfl
  exact reported_view (fun q => (q.objs s).sharedSpotKey) hview D reports

theorem reported_spots (D : Desk) (reports : List DirectoryReport) :
    (D.reported reports).queue.spots = D.queue.spots := by
  refine reported_view EndpointQueue.spots ?_ D reports
  intro q sessions data pending reported
  rw [EndpointQueue.mergeReports_eq]

/-- After the poll a session has the shared spot of its turn, which comes at `D₁`. -/
theorem polled_sharedSpotKey (reports : List DirectoryReport)
    (h : (D.pollerOf poll.machine).Truthful lineage)
    (hanswered : D.Answered lineage poll.machine lookups)
    (hsplit : poll.machine.sessions = pre ++ s :: post) (hnodup : poll.machine.sessions.Nodup) :
    ∃ D₁, Turned lineage poll.machine D D₁ ∧
      D₁.queue = ((D.stamped poll).turns poll.machine lookups pre).queue ∧
      (poll.machine.base, (D.queue.objs s).sessionId) ∈
        (D₁.pollerOf poll.machine).sessionParent ∧
      ((D.polled poll lookups reports).queue.objs s).sharedSpotKey =
        if (D.pollerOf poll.machine).parentChain then
          D₁.queue.resolveSharedSpot poll.machine.base (D.queue.objs s).sessionId
            (D₁.pollerOf poll.machine).sessionParent (D.queue.objs s).client
            (D.pollerOf poll.machine).childrenDepth
        else none := by
  have hmem : ∀ s' ∈ pre ++ s :: post, s' ∈ poll.machine.sessions := fun s' hs' => hsplit ▸ hs'
  have hbefore : Turned lineage poll.machine D ((D.stamped poll).turns poll.machine lookups pre) :=
    (Turned.stamped poll h).turns hanswered fun s' hs' => hmem s' (List.mem_append_left _ hs')
  obtain ⟨D₁, hD₁, hqueue, hknown, hturn⟩ := hbefore.turn_eq hanswered (hmem s (by simp))
  refine ⟨D₁, hD₁, hqueue, hknown, ?_⟩
  -- the later turns are those of other sessions
  have hlater : s ∉ post := by
    rw [hsplit] at hnodup
    exact (List.nodup_cons.mp hnodup.of_append_right).1
  have hshared : (D.shared poll lookups).queue.objs s = (D₁.share poll.machine s).queue.objs s := by
    have hturns : D.shared poll lookups = (D₁.share poll.machine s).turns poll.machine lookups
        post := by
      rw [← hturn]
      unfold shared Desk.turns
      rw [hsplit, List.foldl_append, List.foldl_cons]
    rw [hturns]
    exact turns_objs_of_not_mem _ hlater
  have hend : ((D.polled poll lookups reports).queue.objs s).sharedSpotKey =
      ((D.shared poll lookups).queue.objs s).sharedSpotKey := reported_sharedSpotKey _ reports s
  obtain ⟨key, hkey⟩ := hD₁.objs s
  rw [hend, hshared, share_objs_self, hkey, hD₁.parentChain, hD₁.childrenDepth]
  rfl

theorem polled_spots (h : (D.pollerOf poll.machine).Truthful lineage)
    (hanswered : D.Answered lineage poll.machine lookups) :
    (D.polled poll lookups reports).queue.spots = D.queue.spots :=
  (reported_spots _ reports).trans (Turned.shared h hanswered).spots

/-- A poll that is answered truthfully leaves truthful caches. -/
theorem polled_truthful (h : (D.pollerOf poll.machine).Truthful lineage)
    (hanswered : D.Answered lineage poll.machine lookups) :
    ((D.polled poll lookups reports).pollerOf poll.machine).Truthful lineage := by
  have hpoller : (D.polled poll lookups reports).pollerOf poll.machine =
      ((D.shared poll lookups).pollerOf poll.machine).prune poll.machine.base
        (poll.machine.sessions.map (fun s =>
          (((D.shared poll lookups).reported reports).queue.objs s).sessionId)) :=
    pollerOf_setPoller _ _ _
  rw [hpoller]
  exact (Turned.shared h hanswered).truthful.prune _ _

/-! ### Who is entitled to the spot of an ancestor -/

/-- The session holds no spot, and its closest tracked ancestor `a`, `k` levels up and within the
depth, holds one. -/
structure Entitled (D : Desk) (lineage : Lineage) (m : Machine) (s : SessionRef) (k : Nat)
    (a : String) : Prop where
  parentChain : (D.pollerOf m).parentChain = true
  polled : s ∈ m.sessions
  spotless : (D.queue.objs s).key ∉ D.queue.spots
  closest : Ancestry.ClosestAt lineage.parent (D.queue.Tracks m.client) k
    (D.queue.objs s).sessionId a
  within : k ≤ (D.pollerOf m).childrenDepth.toNat
  holds : (m.client, a) ∈ D.queue.spots

/-- No tracked ancestor of the session within the depth holds a spot, or shares one that is
held. -/
def Unsupported (D : Desk) (lineage : Lineage) (m : Machine) (s : SessionRef) : Prop :=
  ∀ k a anc, 0 < k → k ≤ (D.pollerOf m).childrenDepth.toNat →
    Ancestry.up lineage.parent k (D.queue.objs s).sessionId = some a →
    D.queue.sessions.get? (m.client, a) = some anc → D.queue.spotKey (D.queue.objs anc) = none

/-- The poll that started at `D`, and has come to `D'`, has the sessions share their spots: those
that are entitled run on the spot of their closest tracked ancestor, and those whose ancestors
have nothing to share as their turn comes are given no spot. -/
structure SharesSpots (lineage : Lineage) (poll : Poll)
    (lookups : SessionRef → HttpAnswer SessionInfo) (D D' : Desk) : Prop where
  given : ∀ s k a, D.Entitled lineage poll.machine s k a →
    (D'.queue.objs s).sharedSpotKey = some (poll.machine.client, a)
  denied : ∀ pre s post, poll.machine.sessions = pre ++ s :: post →
    ((D.stamped poll).turns poll.machine lookups pre).Unsupported lineage poll.machine s →
    ∀ key, (D'.queue.objs s).sharedSpotKey = some key → key ∉ D'.queue.spots

/-- The sessions of a machine of the pass are distinct, and tracked under its client. -/
theorem machine_of_machines (hm : m ∈ D.machines) (hfiled : Filed D.queue)
    (hnamed : Named D.queue) : m.sessions.Nodup ∧ ∀ s ∈ m.sessions,
      (D.queue.objs s).client = m.client ∧
        D.queue.Tracks m.client (D.queue.objs s).sessionId := by
  rw [D.sessions_of_machines hm]
  refine ⟨hfiled.values_nodup.filter _, fun s hs => ?_⟩
  obtain ⟨hvalue, hmachine⟩ := List.mem_filter.mp hs
  obtain ⟨k, hk⟩ := OrdDict.mem_values_iff.mp hvalue
  obtain ⟨hlt, hkey⟩ := hfiled k s hk
  have hclient : (D.queue.objs s).client = m.client := by
    have hmachine := of_decide_eq_true hmachine
    unfold machineOf at hmachine
    split at hmachine
    · exact absurd hmachine (by simp)
    · obtain ⟨P, -, hP⟩ := Option.map_eq_some_iff.mp hmachine
      exact (Prod.mk.inj hP).1
  refine ⟨hclient, ?_⟩
  unfold EndpointQueue.Tracks
  rw [← hclient, ← hnamed s hlt, hkey, hk]
  rfl

section Sharing

variable (hfiled : Filed D.queue) (hnamed : Named D.queue) (hm : poll.machine ∈ D.machines)
  (htruthful : (D.pollerOf poll.machine).Truthful lineage)
  (hanswered : D.Answered lineage poll.machine lookups)

include hfiled hnamed hm htruthful hanswered

/-- A session that is entitled gets the spot exactly when the way to its ancestor was known: the
sessions in between are not tracked, so no lookup of the poll is one of theirs. -/
theorem polled_given_iff {k : Nat} {a : String}
    (hentitled : D.Entitled (lineage poll.machine.base) poll.machine s k a) :
    ((D.polled poll lookups reports).queue.objs s).sharedSpotKey = some (poll.machine.client, a) ↔
      ∀ j, 0 < j → j < k → ∀ id,
        Ancestry.up (lineage poll.machine.base).parent j (D.queue.objs s).sessionId = some id →
        (poll.machine.base, id) ∈ (D.pollerOf poll.machine).sessionParent := by
  obtain ⟨hnodup, hmine⟩ := machine_of_machines hm hfiled hnamed
  obtain ⟨pre, post, hsplit⟩ := List.append_of_mem hentitled.polled
  obtain ⟨D₁, hD₁, -, hself, hshared⟩ :=
    polled_sharedSpotKey reports htruthful hanswered hsplit hnodup
  have htracks : D₁.queue.Tracks poll.machine.client = D.queue.Tracks poll.machine.client := by
    funext id
    unfold EndpointQueue.Tracks
    rw [hD₁.sessions]
  rw [hshared, if_pos hentitled.parentChain, EndpointQueue.resolveSharedSpot_eq,
    (hmine s hentitled.polled).1]
  constructor
  · intro h j hj hjk id hid
    obtain ⟨anc, hanc, -⟩ := Option.map_eq_some_iff.mp h
    obtain ⟨k', a', -, hclosest, -, hknown⟩ :=
      (EndpointQueue.closestAncestor_eq_some_iff hD₁.truthful).mp hanc
    rw [htracks] at hclosest
    obtain ⟨rfl, rfl⟩ := hentitled.closest.unique hclosest
    refine (hD₁.learnt _ (hknown j hjk id hid)).resolve_right ?_
    -- what the poll has looked up is tracked
    rintro ⟨s', hs', hkey⟩
    obtain rfl := (Prod.mk.inj hkey).2
    exact hentitled.closest.below j hj hjk _ hid (hmine s' hs').2
  · intro hknown
    obtain ⟨anc, hanc⟩ := Option.isSome_iff_exists.mp hentitled.closest.holds
    have hway : ∀ j < k, ∀ id,
        Ancestry.up (lineage poll.machine.base).parent j (D.queue.objs s).sessionId = some id →
        (poll.machine.base, id) ∈ (D₁.pollerOf poll.machine).sessionParent := by
      intro j hjk id hid
      rcases Nat.eq_zero_or_pos j with rfl | hj
      · rw [← Option.some.inj hid]
        exact hself
      · exact hD₁.sessionParent _ (hknown j hj hjk id hid)
    have hclosest : D₁.queue.closestAncestor poll.machine.base (D.queue.objs s).sessionId
        (D₁.pollerOf poll.machine).sessionParent poll.machine.client
        (D.pollerOf poll.machine).childrenDepth = some anc :=
      (EndpointQueue.closestAncestor_eq_some_iff hD₁.truthful).mpr
        ⟨k, a, hentitled.within, htracks ▸ hentitled.closest, hD₁.sessions ▸ hanc, hway⟩
    obtain ⟨shared, hobj⟩ := hD₁.objs anc
    have hkey : (D₁.queue.objs anc).key = (poll.machine.client, a) := by
      rw [hobj]
      exact (hfiled _ anc hanc).2
    have hholds : (D₁.queue.objs anc).key ∈ D₁.queue.spots := by
      rw [hkey, hD₁.spots]
      exact hentitled.holds
    rw [hclosest, Option.map_some, EndpointQueue.offeredSpot_of_mem hholds, hkey]

/-- Without an ancestor that could support it no session gets a spot. -/
theorem polled_denied (hsplit : poll.machine.sessions = pre ++ s :: post)
    (hunsupported : ((D.stamped poll).turns poll.machine lookups pre).Unsupported
      (lineage poll.machine.base) poll.machine s) {key : Key}
    (hkey : ((D.polled poll lookups reports).queue.objs s).sharedSpotKey = some key) :
    key ∉ (D.polled poll lookups reports).queue.spots := by
  obtain ⟨hnodup, hmine⟩ := machine_of_machines hm hfiled hnamed
  have hmem : ∀ s' ∈ pre ++ s :: post, s' ∈ poll.machine.sessions := fun s' hs' => hsplit ▸ hs'
  obtain ⟨D₁, hD₁, hqueue, -, hshared⟩ :=
    polled_sharedSpotKey reports htruthful hanswered hsplit hnodup
  have hbefore := (Turned.stamped poll htruthful).turns hanswered fun s' hs' =>
    hmem s' (List.mem_append_left (s :: post) hs')
  rw [hshared] at hkey
  split at hkey
  · rw [EndpointQueue.resolveSharedSpot_eq, (hmine s (hmem s (by simp))).1] at hkey
    obtain ⟨anc, hanc, hoffered⟩ := Option.map_eq_some_iff.mp hkey
    obtain ⟨k, a, hk, hclosest, hget, -⟩ :=
      (EndpointQueue.closestAncestor_eq_some_iff hD₁.truthful).mp hanc
    have hnone : D₁.queue.spotKey (D₁.queue.objs anc) = none := by
      rw [hqueue]
      refine hunsupported k a anc hclosest.pos ?_ ?_ (hqueue ▸ hget)
      · rw [hbefore.childrenDepth]
        exact hk
      · rw [hbefore.sessionId]
        exact hclosest.up_eq
    rw [polled_spots htruthful hanswered, ← hD₁.spots, ← hoffered]
    exact EndpointQueue.offeredSpot_not_mem hnone
  · exact absurd hkey (by simp)

/-- **Sessions share the spots of their ancestors exactly when the way is known.** For every
lineage a client reports truthfully, every set of tracked sessions and held spots, every depth
and every cache, a poll whose lookups succeed has the sessions share their spots if and only if
the parents of the sessions between one that is entitled and its closest tracked ancestor were
cached as the poll started. -/
theorem sharesSpots_iff :
    SharesSpots (lineage poll.machine.base) poll lookups D (D.polled poll lookups reports) ↔
      ∀ s k a, D.Entitled (lineage poll.machine.base) poll.machine s k a →
        ∀ j, 0 < j → j < k → ∀ id,
          Ancestry.up (lineage poll.machine.base).parent j (D.queue.objs s).sessionId = some id →
          (poll.machine.base, id) ∈ (D.pollerOf poll.machine).sessionParent := by
  constructor
  · intro h s k a hentitled
    exact (polled_given_iff hfiled hnamed hm htruthful hanswered hentitled).mp
      (h.given s k a hentitled)
  · intro h
    constructor
    · intro s k a hentitled
      exact (polled_given_iff hfiled hnamed hm htruthful hanswered hentitled).mpr
        (h s k a hentitled)
    · exact fun pre s post hsplit hunsupported key =>
        polled_denied hfiled hnamed hm htruthful hanswered hsplit hunsupported

end Sharing

end Desk

/-! ### Sub-agents of sub-agents -/

namespace Fleet

open Runs

/-- `leaf` is a sub-agent of `mid`, which is one of `root`. -/
def nested : Lineage where
  parent := fun id => if id = "leaf" then some "mid" else if id = "mid" then some "root" else none
  acyclic := by
    refine Ancestry.acyclic_of_rank (fun id => if id = "leaf" then 2 else if id = "mid" then 1
      else 0) fun id parent h => ?_
    split at h
    · rename_i hleaf
      obtain rfl := Option.some.inj h
      simp [hleaf]
    · rename_i hleaf
      obtain ⟨hmid, hroot⟩ := Option.ite_none_right_eq_some.mp h
      obtain rfl := Option.some.inj hroot
      simp [hmid]
  named := by
    intro id h
    split at h
    · exact absurd (Option.some.inj h) (by decide)
    · exact absurd (Option.ite_none_right_eq_some.mp h).2 (by simp)

/-- `root` runs on the only spot, `leaf` waits, and `mid` is not tracked. -/
def subAgents : List (Op × Time) :=
  [on 0 (.manage (.setReady true)) 0, on 0 (.arrive (requested "root")) 1, runs 0 0 1, runs 0 0 2,
    runs 0 0 3, on 0 (.arrive (requested "leaf")) 4, runs 0 1 4, runs 0 1 5, runs 0 1 6]

/-- One endpoint with one spot. -/
def oneSpot : Fleet := init [.queued (.ofArgs 1 1 300 600 false false)] oneClient 0

/-- The poll of the client. -/
def clientPoll : Poll := ⟨⟨"opencode", "http://10.0.0.1:4096", [0, 1]⟩, 10, []⟩

/-- The client tells where its sessions come from. -/
def tells (s : SessionRef) : HttpAnswer SessionInfo :=
  some (200, some ⟨some "/w", if s = 1 then some "mid" else none⟩)

/-- The table in which `leaf` waits. -/
structure LeafWaits (q : EndpointQueue) : Prop where
  filed : Filed q
  named : Named q
  root : (q.objs 0).sessionId = "root"
  leaf : (q.objs 1).sessionId = "leaf"
  spotless : (q.objs 1).key ∉ q.spots
  tracked : q.Tracks "opencode" "root"
  untracked : q.sessions.get? ("opencode", "mid") = none
  holds : ("opencode", "root") ∈ q.spots

namespace LeafWaits

variable {D : Desk}

theorem answered (h : LeafWaits D.queue) :
    D.Answered (fun _ => nested) clientPoll.machine tells := by
  intro s hs _
  rcases List.mem_pair.mp hs with rfl | rfl
  · rw [h.root]
    exact ⟨"/w", rfl⟩
  · rw [h.leaf]
    exact ⟨"/w", rfl⟩

theorem entitled (h : LeafWaits D.queue)
    (hparent : (D.pollerOf clientPoll.machine).parentChain = true)
    (hdepth : (D.pollerOf clientPoll.machine).childrenDepth = 10) :
    D.Entitled nested clientPoll.machine 1 2 "root" where
  parentChain := hparent
  polled := List.mem_pair.mpr (Or.inr rfl)
  spotless := h.spotless
  closest := by
    have hroot : Ancestry.ClosestAt nested.parent (D.queue.Tracks "opencode") 1 "mid" "root" :=
      Ancestry.closestAt_succ_iff.mpr ⟨"root", rfl, Or.inl ⟨rfl, rfl, h.tracked⟩⟩
    have hmid : ¬ D.queue.Tracks "opencode" "mid" := by
      unfold EndpointQueue.Tracks
      rw [h.untracked]
      simp
    rw [h.leaf]
    exact Ancestry.closestAt_succ_iff.mpr ⟨"mid", rfl, Or.inr ⟨hmid, hroot⟩⟩
  within := by
    rw [hdepth]
    decide
  holds := h.holds

end LeafWaits

theorem exists_leafWaits : ∃ F st, exec step oneSpot subAgents = some F ∧
    F.stations[0]? = some st ∧ LeafWaits st.endpoint.queue := by
  have hview : (exec step oneSpot subAgents).map (fun F => (F.stations[0]?).map (fun st =>
      (st.endpoint.queue.sessions.entries, st.endpoint.queue.spots.keys))) =
      some (some ([(("opencode", "root"), 0), (("opencode", "leaf"), 1)],
        [("opencode", "root")])) := by
    decide +kernel
  obtain ⟨F, hexec, hF⟩ := Option.map_eq_some_iff.mp hview
  obtain ⟨st, hst, hfacts⟩ := Option.map_eq_some_iff.mp hF
  obtain ⟨hsessions, hspots⟩ := Prod.mk.inj hfacts
  have hfiled := filed_of_run (run_any_of_exec hexec) st (List.mem_of_getElem? hst)
  have hnamed := named_of_run (run_any_of_exec hexec) st (List.mem_of_getElem? hst)
  have hget : ∀ p ∈ [(("opencode", "root"), 0), (("opencode", "leaf"), 1)],
      st.endpoint.queue.sessions.get? p.1 = some p.2 := fun p hp =>
    OrdDict.get?_eq_some_iff.mpr (hsessions ▸ hp)
  obtain ⟨hlt₀, hkey₀⟩ := hfiled _ 0 (hget _ List.mem_cons_self)
  obtain ⟨hlt₁, hkey₁⟩ := hfiled _ 1 (hget (_, 1) (List.mem_pair.mpr (Or.inr rfl)))
  refine ⟨F, st, hexec, hst, hfiled, hnamed, ?_, ?_, ?_, ?_, ?_, ?_⟩
  · exact (Prod.mk.inj ((hnamed 0 hlt₀).symm.trans hkey₀)).2
  · exact (Prod.mk.inj ((hnamed 1 hlt₁).symm.trans hkey₁)).2
  · rw [hkey₁, OrdDict.mem_def, hspots]
    decide
  · exact Option.isSome_iff_exists.mpr ⟨0, hget _ List.mem_cons_self⟩
  · unfold OrdDict.get?
    rw [hsessions]
    rfl
  · rw [OrdDict.mem_def, hspots]
    decide

/-- A manager that has polled nothing yet. -/
def freshDesk (q : EndpointQueue) : Desk := ⟨q, oneClient, []⟩

/-- A manager in whose caches the parents of `mid` and `root` are. -/
def knowingDesk (q : EndpointQueue) : Desk :=
  (freshDesk q).setPoller clientPoll.machine
    ((((freshDesk q).pollerOf clientPoll.machine).learn clientPoll.machine.base "mid"
      ("/w", nested.parent "mid")).learn clientPoll.machine.base "root"
      ("/w", nested.parent "root"))

theorem truthful_fresh (q : EndpointQueue) :
    ((freshDesk q).pollerOf clientPoll.machine).Truthful (fun _ => nested) :=
  .start rfl rfl

/-- With `mid` and `root` in the caches, `leaf` is to run on the spot of `root`. -/
theorem sharesSpots_iff_known : ∃ F st, exec step oneSpot subAgents = some F ∧
    F.stations[0]? = some st ∧
    (((knowingDesk st.endpoint.queue).polled clientPoll tells []).queue.objs 1).sharedSpotKey =
      some ("opencode", "root") := by
  obtain ⟨F, st, hexec, hst, hleaf⟩ := exists_leafWaits
  have hmachines : (exec step oneSpot subAgents).map (fun F => (F.stations[0]?).map (fun st =>
      (knowingDesk st.endpoint.queue).machines)) = some (some [clientPoll.machine]) := by
    decide +kernel
  simp only [hexec, hst, Option.map_some, Option.some.injEq] at hmachines
  refine ⟨F, st, hexec, hst, ?_⟩
  have hpoller := Desk.pollerOf_setPoller (freshDesk st.endpoint.queue) clientPoll.machine
    ((((freshDesk st.endpoint.queue).pollerOf clientPoll.machine).learn clientPoll.machine.base
      "mid" ("/w", nested.parent "mid")).learn clientPoll.machine.base "root"
      ("/w", nested.parent "root"))
  have hmachine : clientPoll.machine ∈ (knowingDesk st.endpoint.queue).machines := by
    rw [hmachines]
    exact List.mem_singleton.mpr rfl
  have htruthful : ((knowingDesk st.endpoint.queue).pollerOf clientPoll.machine).Truthful
      (fun _ => nested) := by
    rw [knowingDesk, hpoller]
    exact ((truthful_fresh _).learn _ _ _).learn _ _ _
  have hshares : Desk.SharesSpots nested clientPoll tells (knowingDesk st.endpoint.queue)
      ((knowingDesk st.endpoint.queue).polled clientPoll tells []) := by
    refine (Desk.sharesSpots_iff hleaf.filed hleaf.named hmachine htruthful hleaf.answered).mpr ?_
    -- whoever is above another session is `mid` or `root`
    intro s k a _ j hj _ id hid
    obtain ⟨n, rfl⟩ := Nat.exists_eq_succ_of_ne_zero (Nat.ne_of_gt hj)
    obtain ⟨child, hchild⟩ := Ancestry.exists_parent_of_up hid
    have hid : id = "mid" ∨ id = "root" := by
      dsimp only [nested] at hchild
      split at hchild
      · exact Or.inl (Option.some.inj hchild).symm
      · obtain ⟨-, hroot⟩ := Option.ite_none_right_eq_some.mp hchild
        exact Or.inr (Option.some.inj hroot).symm
    rw [knowingDesk, hpoller, Poller.mem_learn_sessionParent, Poller.mem_learn_sessionParent]
    rcases hid with rfl | rfl
    · exact Or.inr (Or.inl rfl)
    · exact Or.inl rfl
  have hsettings :
      ((knowingDesk st.endpoint.queue).pollerOf clientPoll.machine).parentChain = true ∧
        ((knowingDesk st.endpoint.queue).pollerOf clientPoll.machine).childrenDepth = 10 := by
    rw [knowingDesk, hpoller]
    exact ⟨rfl, rfl⟩
  have hentitled : (knowingDesk st.endpoint.queue).Entitled nested clientPoll.machine 1 2 "root" :=
    LeafWaits.entitled hleaf hsettings.1 hsettings.2
  rw [hshares.given 1 2 "root" hentitled]
  rfl

/-- The parent of `mid` is never looked up, and `leaf` waits on. -/
theorem sharesSpots_counterexample : ∃ F st, exec step oneSpot subAgents = some F ∧
    F.stations[0]? = some st ∧
    clientPoll.machine ∈ (freshDesk st.endpoint.queue).machines ∧
    ((freshDesk st.endpoint.queue).pollerOf clientPoll.machine).Truthful (fun _ => nested) ∧
    (freshDesk st.endpoint.queue).Answered (fun _ => nested) clientPoll.machine tells ∧
    (freshDesk st.endpoint.queue).Entitled nested clientPoll.machine 1 2 "root" ∧
    (((freshDesk st.endpoint.queue).polled clientPoll tells []).queue.objs 1).sharedSpotKey =
      none ∧
    ¬ Desk.SharesSpots nested clientPoll tells (freshDesk st.endpoint.queue)
      ((freshDesk st.endpoint.queue).polled clientPoll tells []) := by
  obtain ⟨F, st, hexec, hst, hleaf⟩ := exists_leafWaits
  have hview : (exec step oneSpot subAgents).map (fun F => (F.stations[0]?).map (fun st =>
      ((freshDesk st.endpoint.queue).machines, (((freshDesk st.endpoint.queue).polled clientPoll
        tells []).queue.objs 1).sharedSpotKey))) = some (some ([clientPoll.machine], none)) := by
    decide +kernel
  simp only [hexec, hst, Option.map_some, Option.some.injEq, Prod.mk.injEq] at hview
  obtain ⟨hmachines, hnone⟩ := hview
  have hentitled := LeafWaits.entitled (D := freshDesk st.endpoint.queue) hleaf rfl rfl
  refine ⟨F, st, hexec, hst, by rw [hmachines]; exact List.mem_singleton.mpr rfl,
    truthful_fresh _, hleaf.answered, hentitled, hnone, fun hshares => ?_⟩
  have hgiven := hshares.given 1 2 "root" hentitled
  exact absurd (hnone.symm.trans hgiven) (by simp)

end Fleet

end Relay
