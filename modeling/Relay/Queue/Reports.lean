import Relay.Clients.StatusPoller
import Relay.Queue.Surrender

/-!
# Relay.Queue.Reports

**Only a poll writes what a client has reported.** `Carried` says so of two states of a queue:
a session object of the first is still there, with the same names, the same report and the same
stamp, and its last request is the old one or a later one; a new object has no report, and is
known by its client and its id. Every operation but the merge of a poll carries a queue over.

So the client status of a session is the work of the polls alone, and over any run of polls and
other operations it follows the law of the merge (`lawfulStatus`) exactly when every poll may
read its status map.
-/

namespace Relay

open Runs

namespace Session

/-- `y` is a later state of `x` without a new report; a request or response since then is not
from before `t`. -/
structure Kept (t : Time) (x y : Session) : Prop where
  key : y.key = x.key
  client : y.client = x.client
  sessionId : y.sessionId = x.sessionId
  clientStatus : y.clientStatus = x.clientStatus
  clientStatusAt : y.clientStatusAt = x.clientStatusAt
  last : y.lastRequestAt = x.lastRequestAt ∨ t ≤ y.lastRequestAt

variable {t now : Time} {x y z : Session}

theorem Kept.refl (t : Time) (x : Session) : Kept t x x := ⟨rfl, rfl, rfl, rfl, rfl, Or.inl rfl⟩

theorem Kept.trans (h : Kept t x y) (h' : Kept t y z) : Kept t x z where
  key := h'.key.trans h.key
  client := h'.client.trans h.client
  sessionId := h'.sessionId.trans h.sessionId
  clientStatus := h'.clientStatus.trans h.clientStatus
  clientStatusAt := h'.clientStatusAt.trans h.clientStatusAt
  last := by
    rcases h'.last with heq | hlater
    · rw [heq]
      exact h.last
    · exact Or.inr hlater

/-- What names a session. -/
def name (x : Session) : Key × String × String := (x.key, x.client, x.sessionId)

/-- What names a session, what its client reports of it and its last request. -/
def told (x : Session) : (Key × String × String) × Option Status × Time × Time :=
  (x.name, x.clientStatus, x.clientStatusAt, x.lastRequestAt)

theorem kept_of_told_eq (t : Time) (h : y.told = x.told) : Kept t x y := by
  simp only [told, name, Prod.mk.injEq] at h
  obtain ⟨⟨hkey, hclient, hid⟩, hstatus, hstamp, hlast⟩ := h
  exact ⟨hkey, hclient, hid, hstatus, hstamp, Or.inl hlast⟩

/-- A request or response that is not from before `t`. -/
theorem kept_of_later (h : { y with lastRequestAt := x.lastRequestAt }.told = x.told)
    (hlast : y.lastRequestAt = now) (hle : t ≤ now) : Kept t x y :=
  { kept_of_told_eq t h with last := Or.inr (hlast ▸ hle) }

end Session

/-! ### Operations -/

/-- The operation is the merge of a poll into one session. -/
def AtomicOp.isReport : AtomicOp → Bool
  | .queue (.setClientStatus _ _ _ _) => true
  | _ => false

/-- What happens to the reports of a queue: the poll of a directory is merged, or something
else happens. -/
inductive ReportOp
  | poll (sessions : List SessionRef) (data : Option StatusMap) (pending : Option PendingMap)
      (reported : Time)
  | other (op : AtomicOp)

/-- The poll has the pending lists, and they do not name the session. -/
def ReportOp.clears (sessionId : String) : ReportOp → Bool
  | .poll _ _ (some pending) _ => (pending.get? sessionId).isNone
  | _ => false

namespace EndpointQueue

variable {t now promoteAt : Time} {q q' q'' : EndpointQueue} {s : SessionRef} {e : EntryRef}

/-- `q'` is a later state of the queue `q` without a new report. -/
structure Carried (t : Time) (q q' : EndpointQueue) : Prop where
  next_le : q.objs.next ≤ q'.objs.next
  kept : ∀ s < q.objs.next, Session.Kept t (q.objs s) (q'.objs s)
  fresh : ∀ s, q.objs.next ≤ s → s < q'.objs.next → (q'.objs s).clientStatus = none
  named : ∀ s, q.objs.next ≤ s → s < q'.objs.next →
    (q'.objs s).key = ((q'.objs s).client, (q'.objs s).sessionId)

namespace Carried

theorem refl (t : Time) (q : EndpointQueue) : Carried t q q where
  next_le := Nat.le_refl _
  kept := fun s _ => .refl t (q.objs s)
  fresh := fun _ hle hlt => absurd hlt (Nat.not_lt.mpr hle)
  named := fun _ hle hlt => absurd hlt (Nat.not_lt.mpr hle)

theorem trans (h : Carried t q q') (h' : Carried t q' q'') : Carried t q q'' where
  next_le := h.next_le.trans h'.next_le
  kept := fun s hs => (h.kept s hs).trans (h'.kept s (Nat.lt_of_lt_of_le hs h.next_le))
  fresh := by
    intro s hle hlt
    by_cases hs : s < q'.objs.next
    · rw [(h'.kept s hs).clientStatus]
      exact h.fresh s hle hs
    · exact h'.fresh s (Nat.le_of_not_lt hs) hlt
  named := by
    intro s hle hlt
    by_cases hs : s < q'.objs.next
    · have hkept := h'.kept s hs
      rw [hkept.key, hkept.client, hkept.sessionId]
      exact h.named s hle hs
    · exact h'.named s (Nat.le_of_not_lt hs) hlt

/-- A change that leaves the session objects alone. -/
theorem congr (h : Carried t q q') (hobjs : q''.objs = q'.objs) : Carried t q q'' where
  next_le := by
    rw [hobjs]
    exact h.next_le
  kept := by
    rw [hobjs]
    exact h.kept
  fresh := by
    rw [hobjs]
    exact h.fresh
  named := by
    rw [hobjs]
    exact h.named

/-- A change of one session. -/
theorem modify (h : Carried t q q') {f : Session → Session} (hobjs : q''.objs = q'.objs.modify s f)
    (hf : ∀ x, Session.Kept t x (f x)) : Carried t q q'' := by
  have hsame : q''.objs.next = q'.objs.next := by
    rw [hobjs]
    rfl
  refine h.trans ⟨hsame.ge, fun s' _ => ?_, fun s' hle hlt => ?_, fun s' hle hlt => ?_⟩
  · rw [hobjs, Heap.modify_apply]
    split
    · rename_i heq
      rw [heq]
      exact hf _
    · exact .refl t _
  · exact absurd (hsame ▸ hlt) (Nat.not_lt.mpr hle)
  · exact absurd (hsame ▸ hlt) (Nat.not_lt.mpr hle)

/-- A change of one session that concerns neither its client, its report nor its requests. -/
theorem quiet (h : Carried t q q') {f : Session → Session} (hobjs : q''.objs = q'.objs.modify s f)
    (hf : ∀ x, (f x).told = x.told) : Carried t q q'' :=
  h.modify hobjs fun x => Session.kept_of_told_eq t (hf x)

/-! ### The operations -/

theorem getOrCreateSession (h : Carried t q q') (r : Requester) (hle : t ≤ now) :
    Carried t q (q'.getOrCreateSession r now).2 := by
  unfold EndpointQueue.getOrCreateSession
  split
  · have hnew : ∀ s, q'.objs.next ≤ s → s < q'.objs.next + 1 →
        q'.objs.alloc (Session.new r now) s = Session.new r now := by
      intro s hle' hlt
      obtain rfl : s = q'.objs.next := Nat.le_antisymm (Nat.le_of_lt_succ hlt) hle'
      exact Heap.alloc_self q'.objs (Session.new r now)
    refine h.trans ⟨Nat.le_succ _, fun s hs => ?_, fun s hle' hlt => ?_, fun s hle' hlt => ?_⟩
    · change Session.Kept t (q'.objs s) (q'.objs.alloc (Session.new r now) s)
      rw [Heap.alloc_of_lt _ _ hs]
      exact .refl t _
    · exact congrArg Session.clientStatus (hnew s hle' hlt)
    · dsimp only
      rw [hnew s hle' hlt]
      rfl
  · exact h.modify (f := Session.revive r now) rfl fun x => Session.kept_of_later rfl rfl hle

theorem promote (h : Carried t q q') (now : Time) (e : EntryRef) :
    Carried t q (q'.promote now e) :=
  h.quiet (promote_objs q' now e) (fun _ => rfl)

theorem tryPromote (h : Carried t q q') (now : Time) : Carried t q (q'.tryPromote now) :=
  tryPromote_induction (fun _ e hq _ => hq.promote now e) h

theorem enqueue (h : Carried t q q') (s : SessionRef) (path : String) (now promoteAt : Time) :
    Carried t q ((q'.newEntry s path now).2.enqueue (q'.newEntry s path now).1 promoteAt) := by
  have happended : Carried t q ((q'.newEntry s path now).2.append (q'.newEntry s path now).1) :=
    h.quiet (append_objs _ _) (fun _ => rfl)
  exact happended.tryPromote promoteAt

theorem abandon (h : Carried t q q') (e : EntryRef) : Carried t q (q'.abandon e) := by
  unfold EndpointQueue.abandon
  split
  · exact h
  · exact h.quiet (f := Session.unqueued) rfl (fun _ => rfl)

theorem release (h : Carried t q q') (e : EntryRef) (hle : t ≤ now) (promoteAt : Time) :
    Carried t q (q'.release e now promoteAt) := by
  have hfinished : Carried t q (q'.finish e now) :=
    h.modify (finish_objs q' e now) fun x => Session.kept_of_later rfl rfl hle
  exact hfinished.tryPromote promoteAt

theorem releaseSpot (h : Carried t q q') (s : SessionRef) (key : Key) (now : Time) :
    Carried t q (q'.releaseSpot s key now) := by
  have hfreed : Carried t q (q'.freeSpot s key) :=
    h.quiet (freeSpot_objs q' s key) (fun _ => rfl)
  exact hfreed.tryPromote now

theorem releaseSession (h : Carried t q q') (client sessionId : String) (now : Time) :
    Carried t q (q'.releaseSession client sessionId now).2 := by
  rcases releaseSession_cases q' client sessionId now with ⟨s, -, -, heq⟩ | ⟨-, heq⟩
  · rw [heq]
    exact h.releaseSpot s _ now
  · rw [heq]
    exact h

theorem setSharedSpotKey (h : Carried t q q') (s : SessionRef) (key : Option Key) :
    Carried t q (q'.setSharedSpotKey s key) :=
  h.quiet (f := Session.sharing key) rfl (fun _ => rfl)

theorem visit (h : Carried t q q') (now promoteAt : Time) (key : Key) (s : SessionRef) :
    Carried t q (q'.visit now promoteAt key s).1 := by
  have hrec : Carried t q (q'.recomputeAt s now) :=
    h.quiet (f := Session.recompute q'.cfg now) rfl (fun _ => rfl)
  rcases visit_cases q' now promoteAt key s with ⟨-, heq⟩ | ⟨-, -, -, -, heq⟩ | ⟨-, -, heq⟩
  · rw [heq]
    exact hrec.releaseSpot s key promoteAt
  · rw [heq]
    exact hrec.congr rfl
  · rw [heq]
    exact hrec

theorem tick (h : Carried t q q') (now : Time) (promoteAt : Key → Time) :
    Carried t q (q'.tick now promoteAt).1 :=
  tick_induction (P := fun _ _ _ => True)
    (fun _ key s hq _ _ => hq.visit now (promoteAt key) key s) (fun _ _ => trivial) h

/-- The states a tick makes its visits in. -/
theorem visits (h : Carried t q q') (now : Time) (promoteAt : Key → Time) :
    ∀ v ∈ q'.visits now promoteAt, Carried t q v.1 := fun v hv =>
  (visits_induction (P := fun _ _ _ => True)
    (fun _ key s hq _ _ => hq.visit now (promoteAt key) key s) (fun _ _ => trivial) h v hv).1

end Carried

/-- Every session object is known by its client and its id. -/
def Named (q : EndpointQueue) : Prop :=
  ∀ s < q.objs.next, (q.objs s).key = ((q.objs s).client, (q.objs s).sessionId)

namespace Named

theorem init (cfg : QueueConfig) : Named (EndpointQueue.init cfg) :=
  fun _ hs => absurd hs (Nat.not_lt_zero _)

theorem carried (h : Named q) (hq : Carried t q q') : Named q' := by
  intro s hs
  by_cases hold : s < q.objs.next
  · have hkept := hq.kept s hold
    rw [hkept.key, hkept.client, hkept.sessionId]
    exact h s hold
  · exact hq.named s (Nat.le_of_not_lt hold) hs

theorem modify (h : Named q) {f : Session → Session}
    (hf : ∀ x, (f x).name = x.name) (s : SessionRef) :
    Named { q with objs := q.objs.modify s f } := by
  intro s' hs'
  change s' < q.objs.next at hs'
  have hsame := Heap.modify_proj Session.name q.objs s f hf s'
  obtain ⟨hkey, hsame⟩ := Prod.mk.inj hsame
  obtain ⟨hclient, hid⟩ := Prod.mk.inj hsame
  dsimp only
  rw [hkey, hclient, hid]
  exact h s' hs'

end Named

/-! ### Runs of polls -/

/-- Every operation but a report carries the queue over. -/
theorem carried_atomicStep {op : AtomicOp} (h : q.atomicStep op = some q')
    (hop : op.isReport = false) : ∃ t, Carried t q q' := by
  cases op with
  | getOrCreateSession r now =>
      obtain rfl := Option.some.inj h
      exact ⟨now, (Carried.refl now q).getOrCreateSession r le_rfl⟩
  | enqueue s path queuedAt promoteAt =>
      obtain ⟨-, hq'⟩ := Option.ite_none_right_eq_some.mp h
      obtain rfl := Option.some.inj hq'
      exact ⟨0, (Carried.refl 0 q).enqueue s path queuedAt promoteAt⟩
  | queue op =>
      change q.step op = some q' at h
      cases op with
      | admitQueued r path sessionAt queuedAt promoteAt =>
          obtain rfl := Option.some.inj h
          exact ⟨sessionAt, ((Carried.refl sessionAt q).getOrCreateSession r le_rfl).enqueue
            (q.getOrCreateSession r sessionAt).1 path queuedAt promoteAt⟩
      | abandon e =>
          obtain ⟨-, hq'⟩ := Option.ite_none_right_eq_some.mp h
          obtain rfl := Option.some.inj hq'
          exact ⟨0, (Carried.refl 0 q).abandon e⟩
      | release e now promoteAt =>
          obtain ⟨-, hq'⟩ := Option.ite_none_right_eq_some.mp h
          obtain rfl := Option.some.inj hq'
          exact ⟨now, (Carried.refl now q).release e le_rfl promoteAt⟩
      | releaseSession client sessionId promoteAt =>
          obtain rfl := Option.some.inj h
          exact ⟨0, (Carried.refl 0 q).releaseSession client sessionId promoteAt⟩
      | tick now promoteAt =>
          obtain rfl := Option.some.inj h
          exact ⟨0, (Carried.refl 0 q).tick now promoteAt⟩
      | setReady ready =>
          obtain rfl := Option.some.inj h
          exact ⟨0, (Carried.refl 0 q).congr rfl⟩
      | tryPromote now =>
          obtain rfl := Option.some.inj h
          exact ⟨0, (Carried.refl 0 q).tryPromote now⟩
      | setClientStatus s status detail at' => exact absurd hop (by simp [AtomicOp.isReport])
      | setSharedSpotKey s key =>
          obtain ⟨-, hq'⟩ := Option.ite_none_right_eq_some.mp h
          obtain rfl := Option.some.inj hq'
          exact ⟨0, (Carried.refl 0 q).setSharedSpotKey s key⟩

/-- One operation. A poll is one of session objects that exist. -/
def reportStep (q : EndpointQueue) : ReportOp → Option EndpointQueue
  | .poll sessions data pending reported =>
      if ∀ s ∈ sessions, s < q.objs.next then some (q.mergeReports sessions data pending reported)
      else none
  | .other op => if op.isReport then none else q.atomicStep op

/-- The client status the operation should leave the session with. -/
def lawfulStatusAfter (q : EndpointQueue) (s : SessionRef) : ReportOp → Option Status
  | .poll sessions data pending _ =>
      if s ∈ sessions then lawfulStatus data pending (q.objs s).sessionId (q.objs s).clientStatus
      else (q.objs s).clientStatus
  | .other _ => (q.objs s).clientStatus

/-- The operation leaves every session with the client status it should have. -/
def Lawful (q : EndpointQueue) (op : ReportOp) : Prop :=
  ∀ q', q.reportStep op = some q' → ∀ s < q.objs.next,
    (q'.objs s).clientStatus = q.lawfulStatusAfter s op

/-- The poll may read its status map for every session it is of. -/
def MayPoll (q : EndpointQueue) : ReportOp → Prop
  | .poll sessions data pending _ => ∀ s ∈ sessions, (q.objs s).MayRead data pending
  | .other _ => True

/-- An operation that is possible is lawful exactly when its poll may read its map. -/
theorem lawful_iff {op : ReportOp} (h : q.reportStep op = some q') :
    q.Lawful op ↔ q.MayPoll op := by
  cases op with
  | other op =>
      obtain ⟨hop, hstep⟩ := Option.ite_none_left_eq_some.mp h
      obtain ⟨t, hcarried⟩ := carried_atomicStep hstep (Bool.eq_false_iff.mpr hop)
      refine iff_of_true (fun q'' hq'' s hs => ?_) trivial
      obtain rfl := Option.some.inj (h.symm.trans hq'')
      exact (hcarried.kept s hs).clientStatus
  | poll sessions data pending reported =>
      obtain ⟨hexist, hmerge⟩ := Option.ite_none_right_eq_some.mp h
      obtain rfl := Option.some.inj hmerge
      constructor
      · intro hlawful s hs
        have hstatus := hlawful _ h s (hexist s hs)
        rw [mergeReports_objs, if_pos hs, lawfulStatusAfter, if_pos hs] at hstatus
        exact (Session.report_lawful_iff data pending reported _).mp hstatus
      · intro hread q'' hq'' s hs
        obtain rfl := Option.some.inj (h.symm.trans hq'')
        rw [mergeReports_objs, lawfulStatusAfter]
        split
        · rename_i hmem
          exact (Session.report_lawful_iff data pending reported _).mpr (hread s hmem)
        · rfl

/-- **The reports follow the law exactly when every poll may read its map.** A run of polls and
other operations leaves, step by step, every session with the client status it should have (one
that waits for a human is waiting until a fresh list says otherwise) if and only if no poll of it
reads a status map for a session that waits, without the lists that could tell for what, and
none takes an entry that is no object for an idle report. -/
theorem reports_lawful_iff (q q' : EndpointQueue) (ops : List ReportOp) :
    Run (Steps reportStep Lawful) q ops q' ↔ Run (Steps reportStep MayPoll) q ops q' := by
  constructor
  · intro h
    exact h.mono fun q op q' hstep => ⟨hstep.1, (lawful_iff hstep.1).mp hstep.2⟩
  · intro h
    exact h.mono fun q op q' hstep => ⟨hstep.1, (lawful_iff hstep.1).mpr hstep.2⟩

/-- In a lawful run a session waits until a poll whose lists do not name it. -/
theorem waiting_of_run {ops : List ReportOp} (h : Run (Steps reportStep Lawful) q ops q')
    (hs : s < q.objs.next) (hwaiting : (q.objs s).clientStatus = some .waiting)
    (hclears : ∀ op ∈ ops, op.clears (q.objs s).sessionId = false) :
    (q'.objs s).clientStatus = some .waiting := by
  -- the session object stays, with its id
  have hend : s < q'.objs.next ∧ (q'.objs s).sessionId = (q.objs s).sessionId ∧
      (q'.objs s).clientStatus = some .waiting := by
    induction h with
    | nil => exact ⟨hs, rfl, hwaiting⟩
    | snoc hrun hlast ih =>
        rename_i q₁ q₂ ops op
        obtain ⟨hlt, hid, hstatus⟩ := ih fun op hop => hclears op (List.mem_append_left _ hop)
        have hkeeps := hclears op (by simp)
        have hafter := hlast.2 _ hlast.1 s hlt
        cases op with
        | other op =>
            obtain ⟨hop, hstep⟩ := Option.ite_none_left_eq_some.mp hlast.1
            obtain ⟨t, hcarried⟩ := carried_atomicStep hstep (Bool.eq_false_iff.mpr hop)
            exact ⟨Nat.lt_of_lt_of_le hlt hcarried.next_le,
              (hcarried.kept s hlt).sessionId.trans hid, hafter.trans hstatus⟩
        | poll sessions data pending reported =>
            obtain ⟨-, hmerge⟩ := Option.ite_none_right_eq_some.mp hlast.1
            obtain rfl := Option.some.inj hmerge
            refine ⟨by rw [mergeReports_next]; exact hlt, ?_, ?_⟩
            · rw [mergeReports_objs]
              split
              · exact (Session.report_proj Session.sessionId (fun _ _ _ _ => rfl) data pending
                  reported _).trans hid
              · exact hid
            · rw [hafter, lawfulStatusAfter]
              split
              · rw [← hid] at hkeeps
                cases pending with
                | none => simp [lawfulStatus, hstatus]
                | some p =>
                    have hnamed : (p.get? (q₁.objs s).sessionId).isSome = true := by
                      simpa [ReportOp.clears, Option.isSome_iff_ne_none] using hkeeps
                    simp [lawfulStatus, hnamed]
              · exact hstatus
  exact hend.2.2

/-- A session whose permission prompt is pending, while it shows busy in the map. -/
def permissionPending : List ReportOp :=
  [.other (.getOrCreateSession (opencodeRequest "a") 1),
    .poll [0] (some (OrdDict.empty.insert "a" (.object (some "busy") none)))
      (some (OrdDict.empty.insert "a" "permission")) 5]

/-- The next poll has no pending lists. -/
def listsUnreachable : ReportOp :=
  .poll [0] (some (OrdDict.empty.insert "a" (.object (some "busy") none))) none 10

/-- A poll without pending lists clears the flag of a session that waits for a human. -/
theorem reports_counterexample :
    ∃ q q', exec reportStep (EndpointQueue.init immediateRelease) permissionPending = some q ∧
      (q.objs 0).clientStatus = some .waiting ∧ q.reportStep listsUnreachable = some q' ∧
      listsUnreachable.clears (q.objs 0).sessionId = false ∧
      (q'.objs 0).clientStatus = some .busy ∧ ¬ q.Lawful listsUnreachable := by
  have hview : (exec reportStep (EndpointQueue.init immediateRelease) permissionPending).map
      (fun q => ((q.objs 0).clientStatus, (q.objs 0).sessionId, decide (0 < q.objs.next),
        (q.reportStep listsUnreachable).map (fun q => (q.objs 0).clientStatus))) =
      some (some .waiting, "a", true, some (some .busy)) := by decide +kernel
  obtain ⟨q, hexec, hq⟩ := Option.map_eq_some_iff.mp hview
  obtain ⟨hwaiting, hq⟩ := Prod.mk.inj hq
  obtain ⟨hid, hq⟩ := Prod.mk.inj hq
  obtain ⟨hlt, hnext⟩ := Prod.mk.inj hq
  obtain ⟨q', hstep, hbusy⟩ := Option.map_eq_some_iff.mp hnext
  refine ⟨q, q', hexec, hwaiting, hstep, rfl, hbusy, fun hlawful => ?_⟩
  have hstatus := hlawful q' hstep 0 (of_decide_eq_true hlt)
  rw [hbusy] at hstatus
  simp [lawfulStatusAfter, listsUnreachable, lawfulStatus, hwaiting] at hstatus

end EndpointQueue

end Relay
