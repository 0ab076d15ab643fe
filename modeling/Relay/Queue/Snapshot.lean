import Mathlib.Data.Rat.Floor
import Relay.Library.Gather
import Relay.Queue.Reports
import Relay.Queue.Turns

/-!
# Relay.Queue.Snapshot

**The session table of the monitor.** `snapshot` lists sessions from three sources: the spots, the
waiting queue and the session table. `MonitorTable` is what the table should be: every session that
holds a spot, waits, runs or shares a held spot stands in it once, holders first in the order in
which they took their spots, then waiting sessions in the order of their earliest entry.

In every reachable state the table has everything but perhaps some of the running sessions
(`monitorTable_iff`): a session that has lost its spot while its request runs, and has nothing
waiting, comes from none of the three sources.
-/

namespace Relay

open Gather Runs

/-! ### The table -/

/-- The column `spot`. -/
inductive SpotColumn
  | none
  | held
  | shared
  deriving DecidableEq, Repr

/-- `round(x, 1)`: to one decimal, ties to the even digit. -/
def roundTenth (x : ℚ) : ℚ :=
  let digit := ⌊x * 10⌋
  let rest := x * 10 - digit
  if rest < 1 / 2 ∨ (rest = 1 / 2 ∧ digit % 2 = 0) then digit / 10 else (digit + 1) / 10

/-- A row of `snapshot`. -/
structure MonitorRow where
  position : Nat
  session : String
  client : String
  api : String
  status : Status
  detail : String
  clientStatus : Option Status
  clientStatusDetail : String
  clientStatusAge : Option ℚ
  spot : SpotColumn
  spotReleasesIn : Option ℚ
  inflight : Int
  waiting : Int
  queuePosition : Option Nat
  lastPath : String
  clientIp : String
  activeSeconds : ℚ

/-- The session a row is about. -/
def MonitorRow.key (row : MonitorRow) : Key := (row.client, row.session)

namespace EndpointQueue

variable (q : EndpointQueue) (now : Time)

/-- `first_pos`. -/
def firstPos : OrdDict Key Nat := firstPositions q.keyOf q.queue

/-- The session runs, or may run, on the spot of another one that holds it. -/
def sharesSpot (x : Session) : Bool := x.sharedSpotKey.any fun key => decide (key ∈ q.spots)

/-- The sessions of the first loop: those with a spot of their own. -/
def holders : List SessionRef := q.spots.keys.filterMap q.sessions.get?

/-- The sessions of the second loop: those with a waiting entry. -/
def waiters : List SessionRef := q.firstPos.keys.filterMap q.sessions.get?

/-- The sessions of the third loop: those on a shared spot. -/
def sharers : List SessionRef := q.sessions.values.filter fun s => q.sharesSpot (q.objs s)

/-- The sessions `snapshot` lists, in order. -/
def ordered : List SessionRef := gather (gather q.holders q.waiters) q.sharers

/-- The row of a session. -/
def row (s : SessionRef) (idx : Nat) : MonitorRow :=
  let x := q.objs s
  { position := idx
    session := x.sessionId
    client := x.client
    api := x.api
    status := x.status
    detail := x.statusDetail
    clientStatus := x.clientStatus
    clientStatusDetail := x.clientStatusDetail
    clientStatusAge :=
      if x.clientStatusAt ≠ 0 then some (roundTenth (now - x.clientStatusAt)) else none
    spot :=
      if x.key ∈ q.spots then .held
      else if q.sharesSpot x then .shared
      else .none
    spotReleasesIn :=
      if x.spotHeld then
        (x.releaseDeadline q.cfg now).map fun deadline => roundTenth (max 0 (deadline - now))
      else none
    inflight := x.inflight
    waiting := x.waiting
    queuePosition := q.firstPos.get? x.key
    lastPath := x.lastPath
    clientIp := x.clientIp
    activeSeconds := roundTenth (now - x.createdAt) }

/-- The rows of a list of sessions, numbered from `start`. -/
def rowsFrom (start : Nat) (sessions : List SessionRef) : List MonitorRow :=
  (sessions.zipIdx start).map fun p => q.row now p.1 p.2

/-- `snapshot`. -/
def snapshot : List MonitorRow := q.rowsFrom now 1 q.ordered

/-! ### What the table should be -/

/-- An entry of the session waits. -/
def Queued (s : SessionRef) : Prop := ∃ e ∈ q.queue, q.sessionOf e = s

instance (s : SessionRef) : Decidable (q.Queued s) :=
  inferInstanceAs (Decidable (∃ e ∈ q.queue, q.sessionOf e = s))

/-- The session holds a spot, waits, or shares a spot that is held. -/
def Visible (s : SessionRef) : Prop :=
  (q.objs s).spotHeld = true ∨ q.Queued s ∨ q.sharesSpot (q.objs s) = true

instance (s : SessionRef) : Decidable (q.Visible s) :=
  inferInstanceAs (Decidable (_ ∨ _ ∨ _))

/-- Every session of the table with a request in flight is visible. -/
def RunnersVisible : Prop :=
  ∀ s ∈ q.sessions.values, 0 < (q.objs s).inflight → q.Visible s

instance : Decidable q.RunnersVisible :=
  inferInstanceAs (Decidable (∀ s ∈ q.sessions.values, _ → _))

/-- The keys of the sessions that take a spot of their own in a list of promotions. -/
def takenOf (promotions : List (EndpointQueue × EntryRef)) : List Key :=
  promotions.filterMap fun p => if p.1.acquires p.2 then some (p.1.keyOf p.2) else none

/-- The spots taken in a run, in order. -/
def takenIn (q : EndpointQueue) : List QueueOp → List Key
  | [] => []
  | op :: ops => takenOf (q.promotionsOf op) ++ ((q.step op).map fun q' => q'.takenIn ops).getD []

/-- Both positions are given, and the first is smaller. -/
def Precedes (position position' : Option Nat) : Prop :=
  ∃ i ∈ position, ∃ j ∈ position', i < j

/-- The three sections of the table. -/
structure Sections (taken : List Key) (q : EndpointQueue)
    (holding waiting rest : List MonitorRow) : Prop where
  /-- The holders of spots, in the order in which the spots have been taken last. -/
  holding : holding.map MonitorRow.key = taken.dedup.filter (fun key => key ∈ q.spots)
  waiting_spotless : ∀ row ∈ waiting, row.key ∉ q.spots
  waiting_queued : ∀ row ∈ waiting, row.queuePosition.isSome
  waiting_sorted : waiting.Pairwise fun row row' => Precedes row.queuePosition row'.queuePosition
  rest_spotless : ∀ row ∈ rest, row.key ∉ q.spots
  rest_idle : ∀ row ∈ rest, row.queuePosition = none

/-- The rows are a complete and ordered table of the sessions; `taken` are the spots taken so
far. -/
structure MonitorTable (taken : List Key) (q : EndpointQueue) (rows : List MonitorRow) : Prop where
  once : (rows.map MonitorRow.key).Nodup
  complete : ∀ key, key ∈ rows.map MonitorRow.key ↔
    ∃ s, q.sessions.get? key = some s ∧ (q.Visible s ∨ 0 < (q.objs s).inflight)
  positions : rows.map MonitorRow.position = List.range' 1 rows.length
  sections : ∃ holding waiting rest, rows = holding ++ waiting ++ rest ∧
    Sections taken q holding waiting rest
  queuePosition : ∀ row ∈ rows, ∃ s, q.sessions.get? row.key = some s ∧
    row.queuePosition = (q.queue.findIdx? (fun e => q.sessionOf e = s)).map (· + 1)

variable {q q' : EndpointQueue} {now : Time} {cfg : QueueConfig} {s : SessionRef}
  {taken : List Key} {ops : List QueueOp}

/-! ### The order of the spots -/

theorem takenOf_append (ps ps' : List (EndpointQueue × EntryRef)) :
    takenOf (ps ++ ps') = takenOf ps ++ takenOf ps' := List.filterMap_append

theorem takenIn_snoc {op : QueueOp} (h : exec step q ops = some q') :
    q.takenIn (ops ++ [op]) = q.takenIn ops ++ takenOf (q'.promotionsOf op) := by
  induction ops generalizing q with
  | nil =>
      obtain rfl := Option.some.inj h
      cases hstep : q.step op <;> simp [takenIn, hstep]
  | cons first ops ih =>
      obtain ⟨q₁, hfirst, hrest⟩ := Option.bind_eq_some_iff.mp h
      simp [takenIn, hfirst, ih hrest]

/-- The spots stand in the order in which they have been taken last. -/
def InOrder (taken : List Key) (q : EndpointQueue) : Prop :=
  q.spots.keys = taken.dedup.filter (fun key => key ∈ q.spots)

/-- What promotions and surrenders make of the spots stays in order. -/
theorem spotwise_inOrder : Spotwise fun promotions q q' =>
    ∀ taken, InOrder taken q → InOrder (taken ++ takenOf promotions) q' where
  same := by
    intro q q' h taken horder
    simpa [InOrder, takenOf, h] using horder
  erase := by
    intro q q' key h taken horder
    rw [InOrder] at horder
    simp only [InOrder, takenOf, h, OrdDict.keys_erase, horder, List.filterMap_nil,
      List.append_nil, List.filter_filter, OrdDict.mem_erase, Bool.decide_and]
  promote := by
    intro q now e taken horder
    by_cases hacq : q.acquires e = true
    · -- the key is new among the spots, and the last one taken
      have hfree : q.keyOf e ∉ q.spots := Registry.not_mem_of_spotKey_isNone hacq
      have hspots : (q.promote now e).spots = q.spots.insert (q.keyOf e) now := by
        rw [promote_spots, if_pos hacq]
        rfl
      have htaken : takenOf [(q, e)] = [q.keyOf e] := by simp [takenOf, hacq]
      have hold : (taken.dedup.filter fun key => key ≠ q.keyOf e).filter
          (fun key => key = q.keyOf e ∨ key ∈ q.spots) = q.spots.keys := by
        rw [List.filter_filter, horder]
        refine List.filter_congr fun key _ => ?_
        by_cases hkey : key = q.keyOf e
        · simp [hkey, hfree]
        · simp [hkey]
      rw [InOrder, hspots, htaken, dedup_snoc, List.filter_append,
        OrdDict.keys_insert_of_not_mem hfree]
      simp only [OrdDict.mem_insert]
      rw [hold]
      simp
    · have htaken : takenOf [(q, e)] = [] := by simp [takenOf, hacq]
      have hspots : (q.promote now e).spots = q.spots := by rw [promote_spots, if_neg hacq]
      rw [InOrder, hspots, htaken, List.append_nil]
      exact horder
  trans := by
    intro ps ps' q q' q'' h h' taken horder
    rw [takenOf_append, ← List.append_assoc]
    exact h' _ (h _ horder)

theorem inOrder_of_run {ok : EndpointQueue → QueueOp → Prop}
    (h : Run (Steps step ok) q ops q') (horder : InOrder taken q) :
    InOrder (taken ++ q.takenIn ops) q' := by
  induction h with
  | nil => simpa [takenIn] using horder
  | snoc hrun hlast ih =>
      rw [takenIn_snoc (exec_of_run hrun), ← List.append_assoc]
      exact spotwise_inOrder.step hlast.1 _ ih

/-! ### The three sources -/

/-- What the second loop adds. -/
def spotlessWaiters (q : EndpointQueue) : List SessionRef :=
  q.waiters.filter fun s => s ∉ q.holders

/-- What the third loop adds. -/
def idleSharers (q : EndpointQueue) : List SessionRef :=
  q.sharers.filter fun s => s ∉ q.holders ++ q.spotlessWaiters

/-- What the three sources rely on. -/
structure Tabulated (q : EndpointQueue) : Prop where
  accounts : Accounts q (fun _ => 0)
  registry : Registry q
  named : Named q

namespace Tabulated

theorem of_run {ok : EndpointQueue → QueueOp → Prop}
    (h : Run (Steps step ok) (EndpointQueue.init cfg) ops q) : Tabulated q := by
  have hsound := sound_of_run h
  refine ⟨hsound.accounts, hsound.registry, ?_⟩
  refine h.invariant (fun q op q' hq hstep => ?_) (Named.init cfg)
  by_cases hreport : (AtomicOp.queue op).isReport = true
  · obtain ⟨s, status, detail, at', rfl⟩ : ∃ s status detail at',
        op = .setClientStatus s status detail at' := by
      cases op <;> simp_all [AtomicOp.isReport]
    obtain ⟨-, hq'⟩ := Option.ite_none_right_eq_some.mp hstep.1
    obtain rfl := Option.some.inj hq'
    exact hq.modify (f := Session.reported status detail at') (fun _ => rfl) s
  · have hatomic : q.atomicStep (.queue op) = some q' := hstep.1
    obtain ⟨t, hcarried⟩ := carried_atomicStep hatomic (by simpa using hreport)
    exact hq.carried hcarried

theorem mem_values_iff (h : Tabulated q) : s ∈ q.sessions.values ↔ q.Registered s := by
  rw [OrdDict.mem_values_iff]
  exact ⟨fun ⟨_, hs⟩ => h.registry.registered_of_get? hs, fun hs => ⟨_, hs⟩⟩

/-- Looking up keys of the table gives their sessions. -/
theorem map_key_filterMap (h : Tabulated q) {keys : List Key}
    (hkeys : ∀ key ∈ keys, key ∈ q.sessions) :
    (keys.filterMap q.sessions.get?).map (fun s => (q.objs s).key) = keys := by
  induction keys with
  | nil => rfl
  | cons key keys ih =>
      obtain ⟨s, hs⟩ := OrdDict.mem_iff_get?.mp (hkeys key List.mem_cons_self)
      rw [List.filterMap_cons_some hs, List.map_cons, h.registry.key_of key s hs,
        ih fun key' hkey' => hkeys key' (List.mem_cons_of_mem _ hkey')]

theorem mem_filterMap (h : Tabulated q) {keys : List Key} :
    s ∈ keys.filterMap q.sessions.get? ↔ q.Registered s ∧ (q.objs s).key ∈ keys := by
  rw [List.mem_filterMap]
  constructor
  · rintro ⟨key, hkey, hs⟩
    exact ⟨h.registry.registered_of_get? hs, (h.registry.key_of key s hs).symm ▸ hkey⟩
  · rintro ⟨hs, hkey⟩
    exact ⟨_, hkey, hs⟩

theorem keyOf_eq_iff (h : Tabulated q) {e : EntryRef} (he : e ∈ q.queue) (hs : q.Registered s) :
    q.keyOf e = (q.objs s).key ↔ q.sessionOf e = s := by
  constructor
  · exact Registry.registered_unique (h.registry.registered_of_mem_queue h.accounts he) hs
  · intro heq
    exact heq ▸ rfl

theorem mem_holders (h : Tabulated q) :
    s ∈ q.holders ↔ q.Registered s ∧ (q.objs s).spotHeld = true := by
  rw [holders, h.mem_filterMap]
  exact and_congr_right fun hs => (h.registry.spotHeld_iff hs).symm

theorem mem_waiters (h : Tabulated q) : s ∈ q.waiters ↔ q.Queued s := by
  rw [waiters, h.mem_filterMap, ← OrdDict.mem_def, firstPos, mem_firstPositions_iff]
  constructor
  · rintro ⟨hs, e, he, hkey⟩
    exact ⟨e, he, (h.keyOf_eq_iff he hs).mp hkey⟩
  · rintro ⟨e, he, rfl⟩
    exact ⟨h.registry.registered_of_mem_queue h.accounts he, e, he, rfl⟩

theorem mem_sharers (h : Tabulated q) :
    s ∈ q.sharers ↔ q.Registered s ∧ q.sharesSpot (q.objs s) = true := by
  rw [sharers, List.mem_filter, h.mem_values_iff]

theorem map_key_holders (h : Tabulated q) :
    q.holders.map (fun s => (q.objs s).key) = q.spots.keys := by
  refine h.map_key_filterMap fun key hkey => ?_
  obtain ⟨s, hs, -⟩ := (h.registry.spot_iff key).mp hkey
  exact OrdDict.mem_of_get? hs

theorem map_key_waiters (h : Tabulated q) :
    q.waiters.map (fun s => (q.objs s).key) = q.firstPos.keys := by
  refine h.map_key_filterMap fun key hkey => ?_
  obtain ⟨e, he, rfl⟩ := mem_firstPositions_iff.mp hkey
  exact OrdDict.mem_of_get? (h.registry.registered_of_mem_queue h.accounts he)

theorem of_mem_spotlessWaiters (h : Tabulated q) (hs : s ∈ q.spotlessWaiters) :
    q.Registered s ∧ q.Queued s ∧ s ∉ q.holders := by
  obtain ⟨hmem, hnot⟩ := List.mem_filter.mp hs
  exact ⟨(h.mem_filterMap.mp hmem).1, h.mem_waiters.mp hmem, of_decide_eq_true hnot⟩

theorem of_mem_idleSharers (h : Tabulated q) (hs : s ∈ q.idleSharers) :
    q.Registered s ∧ ¬ q.Queued s ∧ s ∉ q.holders := by
  obtain ⟨hmem, hnot⟩ := List.mem_filter.mp hs
  obtain ⟨hholder, hwaiter⟩ := not_or.mp (List.mem_append.not.mp (of_decide_eq_true hnot))
  refine ⟨(h.mem_sharers.mp hmem).1, fun hqueued => hwaiter ?_, hholder⟩
  exact List.mem_filter.mpr ⟨h.mem_waiters.mpr hqueued, decide_eq_true hholder⟩

/-- Waiting sessions come in the order of their earliest entries. -/
theorem waiters_sorted (h : Tabulated q) : q.waiters.Pairwise fun s s' =>
    Precedes (q.firstPos.get? (q.objs s).key) (q.firstPos.get? (q.objs s').key) := by
  have hkeys : q.firstPos.keys.Pairwise fun key key' =>
      Precedes (q.firstPos.get? key) (q.firstPos.get? key') := by
    rw [OrdDict.keys, List.pairwise_map]
    refine (firstPositions_sorted q.keyOf q.queue).1.imp_of_mem fun hp hp' hlt => ?_
    exact ⟨_, OrdDict.get?_eq_some_iff.mpr hp, _, OrdDict.get?_eq_some_iff.mpr hp', hlt⟩
  rw [← h.map_key_waiters, List.pairwise_map] at hkeys
  exact hkeys

/-- A loop adds the sessions of its source that the loops before have not listed. -/
theorem ordered_eq (h : Tabulated q) :
    q.ordered = q.holders ++ q.spotlessWaiters ++ q.idleSharers := by
  have hwaiters : q.waiters.Nodup := by
    refine List.Nodup.of_map (fun s => (q.objs s).key) ?_
    rw [h.map_key_waiters]
    exact q.firstPos.keys_nodup
  have hsharers : q.sharers.Nodup := h.registry.values_nodup.filter _
  rw [ordered, gather_eq_append hwaiters, gather_eq_append hsharers]
  rfl

theorem nodup_ordered (h : Tabulated q) : q.ordered.Nodup := by
  have hholders : q.holders.Nodup := by
    refine List.Nodup.of_map (fun s => (q.objs s).key) ?_
    rw [h.map_key_holders]
    exact q.spots.keys_nodup
  exact nodup_gather (nodup_gather hholders)

theorem mem_ordered (h : Tabulated q) : s ∈ q.ordered ↔ q.Registered s ∧ q.Visible s := by
  have hqueued : q.Queued s → q.Registered s := by
    rintro ⟨e, he, rfl⟩
    exact h.registry.registered_of_mem_queue h.accounts he
  rw [ordered, mem_gather, mem_gather, h.mem_holders, h.mem_waiters, h.mem_sharers, Visible]
  tauto

end Tabulated

/-! ### The rows -/

theorem rowsFrom_append (start : Nat) (sessions sessions' : List SessionRef) :
    q.rowsFrom now start (sessions ++ sessions') =
      q.rowsFrom now start sessions ++ q.rowsFrom now (start + sessions.length) sessions' := by
  simp [rowsFrom, List.zipIdx_append]

/-- A column that does not show the position. -/
theorem map_rowsFrom {β : Type} {column : MonitorRow → β} {value : SessionRef → β}
    {sessions : List SessionRef} (h : ∀ s ∈ sessions, ∀ i, column (q.row now s i) = value s)
    (start : Nat) : (q.rowsFrom now start sessions).map column = sessions.map value := by
  induction sessions generalizing start with
  | nil => rfl
  | cons s sessions ih =>
      show column (q.row now s start) :: (q.rowsFrom now (start + 1) sessions).map column = _
      rw [h s List.mem_cons_self, ih fun s' hs' => h s' (List.mem_cons_of_mem _ hs')]
      rfl

theorem map_queuePosition_rowsFrom (now : Time) (start : Nat) (sessions : List SessionRef) :
    (q.rowsFrom now start sessions).map MonitorRow.queuePosition =
      sessions.map (fun s => q.firstPos.get? (q.objs s).key) :=
  map_rowsFrom (fun _ _ _ => rfl) start

theorem map_position_rowsFrom (start : Nat) (sessions : List SessionRef) :
    (q.rowsFrom now start sessions).map MonitorRow.position =
      List.range' start sessions.length := by
  rw [rowsFrom, List.map_map, ← List.zipIdx_map_snd start sessions]
  rfl

theorem mem_rowsFrom {start : Nat} {sessions : List SessionRef} {row : MonitorRow}
    (h : row ∈ q.rowsFrom now start sessions) : ∃ s ∈ sessions, ∃ i, row = q.row now s i := by
  obtain ⟨p, hp, rfl⟩ := List.mem_map.mp h
  exact ⟨p.1, List.fst_mem_of_mem_zipIdx hp, p.2, rfl⟩

namespace Tabulated

theorem row_key (h : Tabulated q) (hs : q.Registered s) (i : Nat) :
    (q.row now s i).key = (q.objs s).key :=
  (h.named s (h.registry.alloc_lt _ s hs)).symm

/-- The keys of the rows of sessions of the table. -/
theorem map_key_rowsFrom (h : Tabulated q) {sessions : List SessionRef}
    (hs : ∀ s ∈ sessions, q.Registered s) (start : Nat) :
    (q.rowsFrom now start sessions).map MonitorRow.key =
      sessions.map (fun s => (q.objs s).key) :=
  map_rowsFrom (fun s hmem i => h.row_key (hs s hmem) i) start

theorem map_key_snapshot (h : Tabulated q) (now : Time) :
    (q.snapshot now).map MonitorRow.key = q.ordered.map (fun s => (q.objs s).key) :=
  h.map_key_rowsFrom (fun _ hs => (h.mem_ordered.mp hs).1) 1

theorem nodup_snapshot (h : Tabulated q) (now : Time) :
    ((q.snapshot now).map MonitorRow.key).Nodup := by
  rw [h.map_key_snapshot]
  refine h.nodup_ordered.map_on fun s hs s' hs' hkey => ?_
  exact Registry.registered_unique (h.mem_ordered.mp hs).1 (h.mem_ordered.mp hs').1 hkey

/-- The table lists the visible sessions. -/
theorem mem_snapshot (h : Tabulated q) (now : Time) (key : Key) :
    key ∈ (q.snapshot now).map MonitorRow.key ↔
      ∃ s, q.sessions.get? key = some s ∧ q.Visible s := by
  rw [h.map_key_snapshot, List.mem_map]
  constructor
  · rintro ⟨s, hs, rfl⟩
    exact ⟨s, h.mem_ordered.mp hs⟩
  · rintro ⟨s, hs, hvisible⟩
    have hreg := h.registry.registered_of_get? hs
    exact ⟨s, h.mem_ordered.mpr ⟨hreg, hvisible⟩, h.registry.key_of key s hs⟩

theorem queuePosition_row (h : Tabulated q) (hs : q.Registered s) (i : Nat) :
    (q.row now s i).queuePosition =
      (q.queue.findIdx? (fun e => q.sessionOf e = s)).map (· + 1) := by
  show q.firstPos.get? (q.objs s).key = _
  rw [firstPos, get?_firstPositions]
  refine congrArg _ (findIdx?_congr fun e he => ?_)
  rw [decide_eq_decide]
  exact h.keyOf_eq_iff he hs

/-- The column `queue_position` is empty exactly for the sessions that do not wait. -/
theorem isSome_queuePosition_iff (h : Tabulated q) (hs : q.Registered s) (i : Nat) :
    (q.row now s i).queuePosition.isSome ↔ q.Queued s := by
  rw [h.queuePosition_row hs, Option.isSome_map, List.findIdx?_isSome]
  simp [Queued]

theorem row_spotless (h : Tabulated q) (hs : q.Registered s) (hnot : s ∉ q.holders) (i : Nat) :
    (q.row now s i).key ∉ q.spots := by
  rw [h.row_key hs, ← h.registry.spotHeld_iff hs]
  exact fun hheld => hnot (h.mem_holders.mpr ⟨hs, hheld⟩)

theorem snapshot_sections (h : Tabulated q) (horder : InOrder taken q) (now : Time) :
    ∃ holding waiting rest, q.snapshot now = holding ++ waiting ++ rest ∧
      Sections taken q holding waiting rest := by
  have hrows : q.snapshot now = q.rowsFrom now 1 q.holders ++
      q.rowsFrom now (1 + q.holders.length) q.spotlessWaiters ++
      q.rowsFrom now (1 + (q.holders ++ q.spotlessWaiters).length) q.idleSharers := by
    rw [snapshot, h.ordered_eq, rowsFrom_append, rowsFrom_append]
  refine ⟨_, _, _, hrows, ?_⟩
  constructor
  · rw [h.map_key_rowsFrom (fun s hs => (h.mem_holders.mp hs).1), h.map_key_holders]
    exact horder
  · intro row hrow
    obtain ⟨s, hs, i, rfl⟩ := mem_rowsFrom hrow
    obtain ⟨hreg, -, hnot⟩ := h.of_mem_spotlessWaiters hs
    exact h.row_spotless hreg hnot i
  · intro row hrow
    obtain ⟨s, hs, i, rfl⟩ := mem_rowsFrom hrow
    obtain ⟨hreg, hqueued, -⟩ := h.of_mem_spotlessWaiters hs
    exact (h.isSome_queuePosition_iff hreg i).mpr hqueued
  · have hsorted : (q.spotlessWaiters.map fun s => q.firstPos.get? (q.objs s).key).Pairwise
        Precedes := List.pairwise_map.mpr (h.waiters_sorted.filter _)
    rw [← map_queuePosition_rowsFrom now] at hsorted
    exact List.pairwise_map.mp hsorted
  · intro row hrow
    obtain ⟨s, hs, i, rfl⟩ := mem_rowsFrom hrow
    obtain ⟨hreg, -, hnot⟩ := h.of_mem_idleSharers hs
    exact h.row_spotless hreg hnot i
  · intro row hrow
    obtain ⟨s, hs, i, rfl⟩ := mem_rowsFrom hrow
    obtain ⟨hreg, hqueued, -⟩ := h.of_mem_idleSharers hs
    rw [← Option.not_isSome_iff_eq_none, h.isSome_queuePosition_iff hreg]
    exact hqueued

end Tabulated

/-- **When the session table is complete.** In every state a run of atomic operations reaches, the
table of the monitor is complete and ordered exactly when every session of the table with a request
in flight holds a spot, shares one that is held, or has an entry waiting. -/
theorem monitorTable_iff (h : Run (Steps step Any) (EndpointQueue.init cfg) ops q) (now : Time) :
    MonitorTable ((EndpointQueue.init cfg).takenIn ops) q (q.snapshot now) ↔
      q.RunnersVisible := by
  have htable := Tabulated.of_run h
  have hinit : InOrder [] (EndpointQueue.init cfg) := rfl
  have horder : InOrder ((EndpointQueue.init cfg).takenIn ops) q := inOrder_of_run h hinit
  constructor
  · intro hmonitor s hs hrunning
    have hreg := htable.mem_values_iff.mp hs
    have hlisted := (hmonitor.complete (q.objs s).key).mpr ⟨s, hreg, Or.inr hrunning⟩
    obtain ⟨s', hs', hvisible⟩ := (htable.mem_snapshot now _).mp hlisted
    obtain rfl : s = s' := Option.some.inj (hreg.symm.trans hs')
    exact hvisible
  · intro hrunners
    refine ⟨htable.nodup_snapshot now, fun key => ?_, ?_, htable.snapshot_sections horder now, ?_⟩
    · rw [htable.mem_snapshot]
      refine exists_congr fun s => and_congr_right fun hs => ?_
      refine ⟨Or.inl, fun hlisted => hlisted.elim id ?_⟩
      exact hrunners s (OrdDict.mem_values_iff.mpr ⟨key, hs⟩)
    · have hlength : (q.snapshot now).length = q.ordered.length := by simp [snapshot, rowsFrom]
      rw [hlength]
      exact map_position_rowsFrom 1 q.ordered
    · intro row hrow
      obtain ⟨s, hs, i, rfl⟩ := mem_rowsFrom hrow
      have hreg := (htable.mem_ordered.mp hs).1
      exact ⟨s, (htable.row_key hreg i).symm ▸ hreg, htable.queuePosition_row hreg i⟩

/-- One request runs on the spot, one waits, and one runs on the spot of the first. -/
def holderWaiterSharer : List QueueOp :=
  [.setReady true, .admitQueued (requester "a") "/x" 1 1 1, .admitQueued (requester "b") "/y" 2 2 2,
    .admitQueued (requester "c") "/z" 3 3 3, .setSharedSpotKey 2 (some ("unknown", "a")),
    .tryPromote 4]

theorem monitorTable_iff_holderWaiterSharer :
    ∃ q, exec step (EndpointQueue.init oneSpot) holderWaiterSharer = some q ∧
      (q.snapshot 5).map (fun row => (row.session, row.spot, row.queuePosition)) =
        [("a", .held, none), ("b", .none, some 1), ("c", .shared, none)] ∧
      MonitorTable ((EndpointQueue.init oneSpot).takenIn holderWaiterSharer) q (q.snapshot 5) := by
  have hview : (exec step (EndpointQueue.init oneSpot) holderWaiterSharer).map
      (fun q => ((q.snapshot 5).map (fun row => (row.session, row.spot, row.queuePosition)),
        decide q.RunnersVisible)) =
      some ([("a", .held, none), ("b", .none, some 1), ("c", .shared, none)], true) := by
    decide +kernel
  obtain ⟨q, hexec, hq⟩ := Option.map_eq_some_iff.mp hview
  obtain ⟨hrows, hrunners⟩ := Prod.mk.inj hq
  exact ⟨q, hexec, hrows,
    (monitorTable_iff (run_any_of_exec hexec) 5).mpr (of_decide_eq_true hrunners)⟩

/-- The spot of a session is released by hand while its request runs. -/
def releasedByHand : List QueueOp :=
  [.setReady true, .admitQueued (requester "a") "/x" 1 1 1, .releaseSession "unknown" "a" 2]

theorem monitorTable_counterexample :
    ¬ ∀ (cfg : QueueConfig) (ops : List QueueOp) (q : EndpointQueue) (now : Time),
      Run (Steps step Any) (EndpointQueue.init cfg) ops q →
        MonitorTable ((EndpointQueue.init cfg).takenIn ops) q (q.snapshot now) := by
  intro htable
  have hview : (exec step (EndpointQueue.init oneSpot) releasedByHand).map
      (fun q => ((q.snapshot 3).map MonitorRow.key, q.sessions.get? ("unknown", "a"),
        (q.objs 0).inflight)) = some ([], some 0, 1) := by
    decide +kernel
  obtain ⟨q, hexec, hq⟩ := Option.map_eq_some_iff.mp hview
  simp only [Prod.mk.injEq] at hq
  obtain ⟨hrows, hsession, hrunning⟩ := hq
  have hmonitor := htable oneSpot releasedByHand q 3 (run_any_of_exec hexec)
  have hlisted := (hmonitor.complete ("unknown", "a")).mpr
    ⟨0, hsession, Or.inr (by rw [hrunning]; exact Int.one_pos)⟩
  rw [hrows] at hlisted
  exact absurd hlisted List.not_mem_nil

end EndpointQueue

end Relay
