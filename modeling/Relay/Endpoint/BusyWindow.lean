import Relay.Clients.Identity
import Relay.Endpoint.Cooldown
import Relay.Queue.Reports
import Relay.Queue.SessionCap

/-!
# Relay.Endpoint.BusyWindow

**Clients without a status source.** `RelayApp.setup` creates a poller for the clients whose
status kind is `opencode`. A client without one is never polled, and what the proxy knows of
its sessions is the time of the last request. For such a session the busy window and the expiry
are both to count from the last request, whichever is longer.

The queue goes by the name of the client instead: for `unknown` it takes the longer one, for
every other client the expiry alone, counted from the tick that found the session idle
(`keepsWindow_iff`).
-/

namespace Relay

open Runs

/-! ### The clients of a configuration -/

/-- The clients of a configuration; `_build_clients` refuses a name that is taken. -/
structure Clients where
  configs : List ClientConfig
  nodup : (configs.map ClientConfig.name).Nodup

namespace Clients

variable {clients : Clients} {client : String}

/-- The names under which `RelayApp.setup` files a poller. -/
def setupPollers (clients : Clients) : List String :=
  (clients.configs.filter (fun config => config.statusKind = .opencode)).map ClientConfig.name

/-- The tests `_queue_manager_tick` makes before it polls a session of the client. -/
def Polls (clients : Clients) (client : String) : Prop :=
  client ≠ "unknown" ∧ client ∈ clients.setupPollers

instance (clients : Clients) (client : String) : Decidable (clients.Polls client) :=
  inferInstanceAs (Decidable (_ ∧ _))

/-- The client is `unknown`, or configured without a status source. -/
def Unpolled (clients : Clients) (client : String) : Prop :=
  client = "unknown" ∨ ∃ config ∈ clients.configs, config.name = client ∧ config.statusKind = .none

theorem Unpolled.not_polls (h : clients.Unpolled client) : ¬ clients.Polls client := by
  rintro ⟨hknown, hpolled⟩
  obtain ⟨config, hconfig, rfl, hkind⟩ := h.resolve_left hknown
  obtain ⟨other, hother, hname⟩ := List.mem_map.mp hpolled
  obtain ⟨hother, hopencode⟩ := List.mem_filter.mp hother
  obtain rfl := List.inj_on_of_nodup_map clients.nodup hother hconfig hname
  rw [hkind] at hopencode
  cases hopencode

end Clients

/-! ### Operations under a clock -/

/-- The operation reads the clock at `t`. -/
def AtomicOp.Reads (t : Time) : AtomicOp → Prop
  | .queue (.admitQueued _ _ sessionAt queuedAt promoteAt) =>
      t = sessionAt ∨ t = queuedAt ∨ t = promoteAt
  | .queue (.release _ now promoteAt) => t = now ∨ t = promoteAt
  | .queue (.releaseSession _ _ promoteAt) => t = promoteAt
  | .queue (.tick now promoteAt) => t = now ∨ ∃ key, t = promoteAt key
  | .queue (.tryPromote now) => t = now
  | .queue (.setClientStatus _ _ _ at') => t = at'
  | .queue (.abandon _) => False
  | .queue (.setReady _) => False
  | .queue (.setSharedSpotKey _ _) => False
  | .getOrCreateSession _ now => t = now
  | .enqueue _ _ queuedAt promoteAt => t = queuedAt ∨ t = promoteAt

/-- The session a poller writes to. -/
def AtomicOp.pollee? : AtomicOp → Option SessionRef
  | .queue (.setClientStatus s _ _ _) => some s
  | .queue (.setSharedSpotKey s _) => some s
  | _ => none

/-- A queue, and a reading of the monotonic clock. -/
structure Timed where
  queue : EndpointQueue
  clock : Time

namespace Timed

def init (cfg : QueueConfig) (clock : Time) : Timed := ⟨.init cfg, clock⟩

/-- One operation, and the clock after it. -/
def step (T : Timed) (l : AtomicOp × Time) : Option Timed :=
  (T.queue.atomicStep l.1).map (fun q => ⟨q, l.2⟩)

/-- The clock does not go back, the operation reads it in between, and a poller writes to the
sessions of its client. -/
structure Admits (clients : Clients) (T : Timed) (l : AtomicOp × Time) : Prop where
  clock : T.clock ≤ l.2
  reads : ∀ t, l.1.Reads t → T.clock ≤ t ∧ t ≤ l.2
  polled : ∀ s, l.1.pollee? = some s → clients.Polls (T.queue.objs s).client

/-- No tick surrenders a spot of the client before the longer of the busy window and the expiry
has passed since the last request. -/
def KeepsWindow (cfg : QueueConfig) (clients : Clients) (client : String) : Prop :=
  ∀ (clock : Time) (ls : List (AtomicOp × Time)) (T : Timed),
    Run (Steps step (Admits clients)) (init cfg clock) ls T →
    ∀ (now : Time) (promoteAt : Key → Time) (next : Time),
    T.Admits clients (.queue (.tick now promoteAt), next) →
    ∀ key s, T.queue.sessions.get? key = some s → (T.queue.objs s).client = client →
      key ∈ (T.queue.tick now promoteAt).2.map Prod.fst →
      (T.queue.objs s).lastRequestAt + max cfg.busyWindow cfg.sessionExpiry ≤ now

end Timed

/-! ### What is known of an unpolled session -/

/-- The last request is in the past, and a report comes from a poller. -/
def Session.Witnessed (clients : Clients) (clock : Time) (x : Session) : Prop :=
  x.lastRequestAt ≤ clock ∧ (x.clientStatus ≠ none → clients.Polls x.client)

namespace Session.Witnessed

variable {clients : Clients} {clock now : Time} {x y : Session}

theorem mono (h : x.Witnessed clients clock) (hle : clock ≤ now) : x.Witnessed clients now :=
  ⟨h.1.trans hle, h.2⟩

/-- A change that concerns neither the client, its report nor its requests. -/
theorem congr (h : x.Witnessed clients clock) (htold : y.told = x.told) :
    y.Witnessed clients clock := by
  simp only [told, name, Prod.mk.injEq] at htold
  obtain ⟨⟨-, hclient, -⟩, hstatus, -, hlast⟩ := htold
  unfold Witnessed
  rw [hlast, hstatus, hclient]
  exact h

end Session.Witnessed

namespace EndpointQueue

/-- Every session is witnessed. -/
def Witnessed (clients : Clients) (clock : Time) (q : EndpointQueue) : Prop :=
  ∀ s < q.objs.next, (q.objs s).Witnessed clients clock

namespace Witnessed

variable {clients : Clients} {clock now promoteAt : Time} {q q' : EndpointQueue} {s : SessionRef}
  {f : Session → Session}

theorem init (clients : Clients) (cfg : QueueConfig) (clock : Time) :
    Witnessed clients clock (EndpointQueue.init cfg) :=
  fun _ hs => absurd hs (Nat.not_lt_zero _)

theorem mono (h : Witnessed clients clock q) (hle : clock ≤ now) : Witnessed clients now q :=
  fun s hs => (h s hs).mono hle

theorem modify (h : Witnessed clients clock q) (hobjs : q'.objs = q.objs.modify s f)
    (hf : ∀ x, x.Witnessed clients clock → (f x).Witnessed clients clock) :
    Witnessed clients clock q' := by
  intro s' hs'
  rw [hobjs] at hs' ⊢
  rw [Heap.modify_apply]
  split
  · rename_i heq
    rw [heq] at hs'
    exact hf _ (h s hs')
  · exact h s' hs'

/-- A change of one session that concerns neither its client, its report nor its requests. -/
theorem quiet (h : Witnessed clients clock q) (hobjs : q'.objs = q.objs.modify s f)
    (hf : ∀ x, (f x).told = x.told) : Witnessed clients clock q' :=
  h.modify hobjs fun x hx => hx.congr (hf x)

theorem promote (h : Witnessed clients clock q) (now : Time) (e : EntryRef) :
    Witnessed clients clock (q.promote now e) :=
  h.quiet (promote_objs q now e) fun _ => rfl

theorem tryPromote (h : Witnessed clients clock q) (now : Time) :
    Witnessed clients clock (q.tryPromote now) :=
  tryPromote_induction (fun _ e hq _ => hq.promote now e) h

theorem getOrCreateSession (h : Witnessed clients clock q) (r : Requester) (hnow : now ≤ clock) :
    Witnessed clients clock (q.getOrCreateSession r now).2 := by
  unfold EndpointQueue.getOrCreateSession
  split
  · intro s hs
    change (q.objs.alloc (Session.new r now) s).Witnessed clients clock
    by_cases hnew : s = q.objs.next
    · rw [hnew, Heap.alloc_self]
      exact ⟨hnow, fun hreport => absurd rfl hreport⟩
    · rw [Heap.alloc_of_ne _ _ hnew]
      exact h s (Nat.lt_of_le_of_ne (Nat.le_of_lt_succ hs) hnew)
  · exact h.modify (f := Session.revive r now) rfl fun x hx => ⟨hnow, hx.2⟩

theorem enqueue (h : Witnessed clients clock q) (s : SessionRef) (path : String)
    (now promoteAt : Time) : Witnessed clients clock
      ((q.newEntry s path now).2.enqueue (q.newEntry s path now).1 promoteAt) := by
  have happended : Witnessed clients clock
      ((q.newEntry s path now).2.append (q.newEntry s path now).1) :=
    quiet (q := q) h (append_objs _ _) fun _ => rfl
  exact happended.tryPromote promoteAt

theorem abandon (h : Witnessed clients clock q) (e : EntryRef) :
    Witnessed clients clock (q.abandon e) := by
  unfold EndpointQueue.abandon
  split
  · exact h
  · exact h.quiet (f := Session.unqueued) rfl fun _ => rfl

theorem release (h : Witnessed clients clock q) (e : EntryRef) (hnow : now ≤ clock)
    (promoteAt : Time) : Witnessed clients clock (q.release e now promoteAt) := by
  have hfinished : Witnessed clients clock (q.finish e now) :=
    h.modify (finish_objs q e now) fun x hx => ⟨hnow, hx.2⟩
  exact hfinished.tryPromote promoteAt

theorem releaseSpot (h : Witnessed clients clock q) (s : SessionRef) (key : Key) (now : Time) :
    Witnessed clients clock (q.releaseSpot s key now) := by
  have hfreed : Witnessed clients clock (q.freeSpot s key) :=
    h.quiet (freeSpot_objs q s key) fun _ => rfl
  exact hfreed.tryPromote now

theorem releaseSession (h : Witnessed clients clock q) (client sessionId : String) (now : Time) :
    Witnessed clients clock (q.releaseSession client sessionId now).2 := by
  rcases releaseSession_cases q client sessionId now with ⟨s, -, -, heq⟩ | ⟨-, heq⟩
  · rw [heq]
    exact h.releaseSpot s _ now
  · rw [heq]
    exact h

/-- A report of a session that is polled. -/
theorem setClientStatus (h : Witnessed clients clock q)
    (hpolled : clients.Polls (q.objs s).client) (status : Option Status) (detail : String)
    (at' : Time) : Witnessed clients clock (q.setClientStatus s status detail at') := by
  intro s' hs'
  change (q.objs.modify s (Session.reported status detail at') s').Witnessed clients clock
  rw [Heap.modify_apply]
  split
  · rename_i heq
    rw [heq] at hs'
    exact ⟨(h s hs').1, fun _ => hpolled⟩
  · exact h s' hs'

theorem visit (h : Witnessed clients clock q) (now promoteAt : Time) (key : Key)
    (s : SessionRef) : Witnessed clients clock (q.visit now promoteAt key s).1 := by
  have hrec : Witnessed clients clock (q.recomputeAt s now) :=
    h.quiet (f := Session.recompute q.cfg now) rfl fun _ => rfl
  rcases visit_cases q now promoteAt key s with ⟨-, heq⟩ | ⟨-, -, -, -, heq⟩ | ⟨-, -, heq⟩
  · rw [heq]
    exact hrec.releaseSpot s key promoteAt
  · rw [heq]
    exact hrec
  · rw [heq]
    exact hrec

theorem tick (h : Witnessed clients clock q) (now : Time) (promoteAt : Key → Time) :
    Witnessed clients clock (q.tick now promoteAt).1 ∧
      ∀ v ∈ q.visits now promoteAt, Witnessed clients clock v.1 ∧
        q.sessions.get? v.2.1 = some v.2.2 := by
  have hvisit : ∀ (q : EndpointQueue) key s, Witnessed clients clock q →
      q.sessions.get? key = some s → True →
      Witnessed clients clock (q.visit now (promoteAt key) key s).1 :=
    fun q key s hq _ _ => hq.visit now (promoteAt key) key s
  refine ⟨tick_induction hvisit (fun _ _ => trivial) h, fun v hv => ?_⟩
  exact ⟨(visits_induction hvisit (fun _ _ => trivial) h v hv).1, get?_of_mem_visits hv⟩

end Witnessed

/-- A queue that runs by itself, with countdowns in pace and sessions witnessed. -/
structure Inferred (clients : Clients) (cfg : QueueConfig) (clock : Time) (q : EndpointQueue) :
    Prop where
  cfg_eq : q.cfg = cfg
  accounts : Accounts q (fun _ => 0)
  filed : Filed q
  paced : Paced (fun _ => True) q
  witnessed : Witnessed clients clock q

/-- The parts a managed operation keeps whatever it does. -/
theorem managed_tracked (cfg : QueueConfig) :
    Managed (fun q => (q.cfg = cfg ∧ Accounts q (fun _ => 0)) ∧ Filed q) := by
  have hfiled : Managed Filed :=
    { promote := fun _ e now h _ => h.promote now e
      freeSpot := fun _ key s h _ => h.freeSpot s key
      forget := fun _ key _ h _ _ => h.forget key
      cosmetic := fun _ _ _ h hf => h.modify hf.key rfl rfl
      setReady := fun _ _ h => h.congr rfl rfl }
  exact (managed_cfg.and managed_accounts).and hfiled

namespace Inferred

variable {clients : Clients} {cfg : QueueConfig} {clock now promoteAt : Time}
  {q q' : EndpointQueue} {s : SessionRef}

theorem init (clients : Clients) (cfg : QueueConfig) (clock : Time) :
    Inferred clients cfg clock (EndpointQueue.init cfg) where
  cfg_eq := rfl
  accounts := .init cfg
  filed := .init cfg
  paced := .init cfg
  witnessed := .init clients cfg clock

theorem mono (h : Inferred clients cfg clock q) (hle : clock ≤ now) :
    Inferred clients cfg now q :=
  { h with witnessed := h.witnessed.mono hle }

theorem tracked (h : Inferred clients cfg clock q) :
    (q.cfg = cfg ∧ Accounts q (fun _ => 0)) ∧ Filed q :=
  ⟨⟨h.cfg_eq, h.accounts⟩, h.filed⟩

theorem ofTracked (h : (q.cfg = cfg ∧ Accounts q (fun _ => 0)) ∧ Filed q)
    (hpaced : Paced (fun _ => True) q) (hwitnessed : Witnessed clients clock q) :
    Inferred clients cfg clock q :=
  ⟨h.1.1, h.1.2, h.2, hpaced, hwitnessed⟩

theorem getOrCreateSession (h : Inferred clients cfg clock q) (r : Requester)
    (hnow : now ≤ clock) : Inferred clients cfg clock (q.getOrCreateSession r now).2 where
  cfg_eq := (getOrCreateSession_cfg q r now).trans h.cfg_eq
  accounts := h.accounts.getOrCreateSession r now
  filed := (h.filed.getOrCreateSession r now).1
  paced := h.paced.getOrCreateSession r now
  witnessed := h.witnessed.getOrCreateSession r hnow

theorem enqueue (h : Inferred clients cfg clock q) (hs : s < q.objs.next) (path : String)
    (now promoteAt : Time) : Inferred clients cfg clock
      ((q.newEntry s path now).2.enqueue (q.newEntry s path now).1 promoteAt) := by
  have hnew : (q.newEntry s path now).2.entries q.entries.next =
      { session := s, path := path, enqueuedAt := now } := Heap.alloc_self _ _
  have haccounts : Accounts ((q.newEntry s path now).2.append (q.newEntry s path now).1)
      (fun _ => 0) := by
    refine (h.accounts.newEntry hs path now).append (Nat.lt_succ_self _)
      (congrArg QueueEntry.done hnew) fun hmem => ?_
    exact Nat.lt_irrefl _ (h.accounts.queue_done _ hmem).1
  have hfiled : Filed ((q.newEntry s path now).2.append (q.newEntry s path now).1) :=
    Filed.modify (q := q) h.filed (f := Session.queued _) (fun _ => rfl) rfl (append_objs _ _)
  have htracked := (managed_tracked cfg).tryPromote
    (q := (q.newEntry s path now).2.append (q.newEntry s path now).1)
    ⟨⟨h.cfg_eq, haccounts⟩, hfiled⟩ promoteAt
  exact ofTracked htracked
    (h.paced.enqueue h.accounts s path now promoteAt) (h.witnessed.enqueue s path now promoteAt)

theorem tick (h : Inferred clients cfg clock q) (hnow : clock ≤ now) (promoteAt : Key → Time) :
    Inferred clients cfg clock (q.tick now promoteAt).1 ∧
      ∀ v ∈ q.visits now promoteAt, Inferred clients cfg clock v.1 ∧ v.2.2 < v.1.objs.next := by
  have htracked := (managed_tracked cfg).visits h.tracked now promoteAt
  obtain ⟨hwitnessed, hvisits⟩ := h.witnessed.tick now promoteAt
  have hlt : ∀ v ∈ q.visits now promoteAt, v.2.2 < v.1.objs.next := fun v hv =>
    ((htracked v hv).1.2 _ _ (htracked v hv).2).1
  -- the last request is not later than the reading, so no countdown starts before it
  obtain ⟨hpaced, hpaced'⟩ := h.paced.tick h.accounts fun v hv _ _ _ _ =>
    ((hvisits v hv).1 _ (hlt v hv)).1.trans hnow
  refine ⟨ofTracked ((managed_tracked cfg).tick h.tracked now promoteAt) hpaced hwitnessed,
    fun v hv => ⟨?_, hlt v hv⟩⟩
  exact ofTracked (htracked v hv).1 (hpaced' v hv) (hvisits v hv).1

theorem release (h : Inferred clients cfg clock q) {e : EntryRef} (he : e ∈ q.running)
    (hnow : now ≤ clock) (promoteAt : Time) :
    Inferred clients cfg clock (q.release e now promoteAt) := by
  have hfiled : Filed (q.finish e now) :=
    h.filed.modify (f := Session.finished now) (fun _ => rfl) rfl (finish_objs q e now)
  have htracked := (managed_tracked cfg).tryPromote (q := q.finish e now)
    ⟨⟨h.cfg_eq, h.accounts.finish he now⟩, hfiled⟩ promoteAt
  exact ofTracked htracked
    (h.paced.release he now promoteAt) (h.witnessed.release e hnow promoteAt)

/-- Every operation keeps the invariant. -/
theorem step {T : Timed} {l : AtomicOp × Time} (h : Inferred clients cfg T.clock T.queue)
    (hadmits : T.Admits clients l) (hop : T.queue.atomicStep l.1 = some q') :
    Inferred clients cfg l.2 q' := by
  have hlater := h.mono hadmits.clock
  obtain ⟨op, next⟩ := l
  cases op with
  | getOrCreateSession r now =>
      obtain rfl := Option.some.inj hop
      exact hlater.getOrCreateSession r (hadmits.reads now rfl).2
  | enqueue s path queuedAt promoteAt =>
      obtain ⟨hs, hq'⟩ := Option.ite_none_right_eq_some.mp hop
      obtain rfl := Option.some.inj hq'
      exact hlater.enqueue hs path queuedAt promoteAt
  | queue op =>
      change T.queue.step op = some q' at hop
      cases op with
      | admitQueued r path sessionAt queuedAt promoteAt =>
          obtain rfl := Option.some.inj hop
          have hcreated := hlater.getOrCreateSession r (hadmits.reads sessionAt (Or.inl rfl)).2
          exact hcreated.enqueue (hlater.filed.getOrCreateSession r sessionAt).2 path queuedAt
            promoteAt
      | abandon e =>
          obtain ⟨he, hq'⟩ := Option.ite_none_right_eq_some.mp hop
          obtain rfl := Option.some.inj hq'
          -- `abandon` is no managed operation, and runs no promotion loop
          have hatomic : T.queue.atomicStep (.queue (.abandon e)) = some (T.queue.abandon e) := hop
          exact
            { cfg_eq := (atomicStep_cfg hatomic).trans h.cfg_eq
              accounts := hlater.accounts.abandon he
              filed := hlater.filed.abandon e
              paced := hlater.paced.abandon e
              witnessed := hlater.witnessed.abandon e }
      | release e now promoteAt =>
          obtain ⟨he, hq'⟩ := Option.ite_none_right_eq_some.mp hop
          obtain rfl := Option.some.inj hq'
          exact hlater.release he (hadmits.reads now (Or.inl rfl)).2 promoteAt
      | releaseSession client sessionId promoteAt =>
          refine ofTracked ((managed_tracked cfg).step hlater.tracked rfl hop) ?_ ?_ <;>
            obtain rfl := Option.some.inj hop
          · exact hlater.paced.releaseSession client sessionId promoteAt
          · exact hlater.witnessed.releaseSession client sessionId promoteAt
      | tick now promoteAt =>
          -- the tick reads the clock between the two readings of the step
          obtain rfl := Option.some.inj hop
          have hnow := hadmits.reads now (Or.inl rfl)
          exact ((h.tick hnow.1 promoteAt).1).mono hadmits.clock
      | setReady ready =>
          refine ofTracked ((managed_tracked cfg).step hlater.tracked rfl hop) ?_ ?_ <;>
            obtain rfl := Option.some.inj hop
          · exact hlater.paced.congr rfl fun e he => ⟨he, rfl⟩
          · exact hlater.witnessed
      | tryPromote now =>
          refine ofTracked ((managed_tracked cfg).step hlater.tracked rfl hop) ?_ ?_ <;>
            obtain rfl := Option.some.inj hop
          · exact hlater.paced.tryPromote now
          · exact hlater.witnessed.tryPromote now
      | setClientStatus s status detail at' =>
          refine ofTracked ((managed_tracked cfg).step hlater.tracked rfl hop) ?_ ?_ <;>
            obtain ⟨-, hq'⟩ := Option.ite_none_right_eq_some.mp hop <;>
            obtain rfl := Option.some.inj hq'
          · exact hlater.paced.calm (f := Session.reported status detail at') rfl
              (fun e he => ⟨he, rfl⟩) (fun _ => rfl) (fun _ => rfl) (fun _ => rfl)
              (fun _ hx => hx)
          · exact hlater.witnessed.setClientStatus (hadmits.polled s rfl) status detail at'
      | setSharedSpotKey s key =>
          refine ofTracked ((managed_tracked cfg).step hlater.tracked rfl hop) ?_ ?_ <;>
            obtain ⟨-, hq'⟩ := Option.ite_none_right_eq_some.mp hop <;>
            obtain rfl := Option.some.inj hq'
          · exact hlater.paced.calm (f := Session.sharing key) rfl
              (fun e he => ⟨he, rfl⟩) (fun _ => rfl) (fun _ => rfl) (fun _ => rfl)
              (fun _ hx => hx)
          · exact hlater.witnessed.quiet (f := Session.sharing key) rfl fun _ => rfl

end Inferred

end EndpointQueue

/-! ### When the busy window is kept -/

namespace Session

variable {clients : Clients} {cfg : QueueConfig} {clock now : Time} {x : Session}

/-- The deadline of an unpolled session has come after the longer window only. -/
theorem window_of_due (hpace : x.InPace) (hwitnessed : x.Witnessed clients clock)
    (hnow : clock ≤ now) (hpolls : ¬ clients.Polls x.client)
    (hwindow : x.client = "unknown" ∨ cfg.busyWindow ≤ max 0 cfg.sessionExpiry)
    (hdue : (x.recompute cfg now).due cfg now = true) :
    x.lastRequestAt + max cfg.busyWindow cfg.sessionExpiry ≤ now := by
  have hidle : ¬ 0 < x.inflight := by
    intro hrun
    rw [due_eq_false_of_inflight (x := x.recompute cfg now) hrun] at hdue
    cases hdue
  -- of an unknown client the deadline is the longer window itself
  by_cases hknown : x.client = "unknown"
  · simpa [due, releaseDeadline, recompute, hidle, hknown] using hdue
  · have hlast : x.lastRequestAt ≤ now := hwitnessed.1.trans hnow
    rcases due_recompute_cases hknown hdue with ⟨since, hsince, hover⟩ | ⟨hfresh, -⟩
    · -- the countdown started after the last request
      have hstart : x.lastRequestAt ≤ since :=
        hpace.recompute (fun _ _ _ => hlast) hknown since hsince
      rcases le_total cfg.busyWindow cfg.sessionExpiry with hle | hle
      · rw [max_eq_right hle]
        exact (add_le_add_left hstart _).trans hover
      · have hneg : cfg.busyWindow ≤ 0 ∨ cfg.busyWindow ≤ cfg.sessionExpiry :=
          le_max_iff.mp (hwindow.resolve_left hknown)
        rw [max_eq_left hle]
        rcases hneg with hneg | hle'
        · exact (add_le_of_nonpos_right hneg).trans hlast
        · exact (add_le_add hstart hle').trans hover
    · refine absurd (hwitnessed.2 fun hnone => ?_) hpolls
      -- a report that surrenders the spot at once would come from a poller
      simp [freshClientReport, hnone] at hfresh

/-- The deadline of a known client without reports. -/
theorem due_recompute_of_silent (hknown : x.client ≠ "unknown") (hidle : x.inflight = 0)
    (hsilent : x.clientStatus = none) :
    (x.recompute cfg now).due cfg now =
      decide (x.idleSince.getD now + cfg.sessionExpiry ≤ now) := by
  cases hsince : x.idleSince <;>
    simp [due, releaseDeadline, recompute, currentStatus, hknown, hidle, hsilent, hsince]

theorem recompute_idleSince_of_silent (hknown : x.client ≠ "unknown") (hidle : x.inflight = 0)
    (hsilent : x.clientStatus = none) :
    (x.recompute cfg now).idleSince = some (x.idleSince.getD now) := by
  cases hsince : x.idleSince <;>
    simp [recompute, currentStatus, hknown, hidle, hsilent, hsince]

end Session

namespace Timed

open EndpointQueue

variable {cfg : QueueConfig} {clients : Clients} {client : String} {clock : Time} {T : Timed}
  {ls : List (AtomicOp × Time)}

theorem inferred_of_run (h : Run (Steps step (Admits clients)) (init cfg clock) ls T) :
    Inferred clients cfg T.clock T.queue := by
  refine h.invariant (I := fun T => Inferred clients cfg T.clock T.queue) ?_
    (.init clients cfg clock)
  intro T l T' hT hstep
  obtain ⟨q, hq, rfl⟩ := Option.map_eq_some_iff.mp hstep.1
  exact hT.step hstep.2 hq

theorem keepsWindow_of_window (hpolls : ¬ clients.Polls client)
    (hwindow : client = "unknown" ∨ cfg.busyWindow ≤ max 0 cfg.sessionExpiry) :
    KeepsWindow cfg clients client := by
  intro clock ls T hrun now promoteAt next hadmits key s hs hclient hreleased
  have hT := inferred_of_run hrun
  have hnow : T.clock ≤ now := (hadmits.reads now (Or.inl rfl)).1
  obtain ⟨⟨q, key', s'⟩, hv, rfl, hsur⟩ := mem_released_iff.mp hreleased
  obtain rfl : s' = s := Option.some.inj ((get?_of_mem_visits hv).symm.trans hs)
  obtain ⟨hq, hlt⟩ := (hT.tick hnow promoteAt).2 _ hv
  -- an earlier visit of the tick has not changed what is known of the session
  have hkept := ((Carried.refl (T.queue.objs s').lastRequestAt T.queue).visits now promoteAt
    _ hv).kept s' (hT.filed _ _ hs).1
  have hlast : (T.queue.objs s').lastRequestAt ≤ (q.objs s').lastRequestAt :=
    hkept.last.elim ge_of_eq id
  rw [← hkept.client] at hclient
  have hdue := (Bool.and_eq_true_iff.mp hsur).2
  rw [hq.cfg_eq] at hdue
  have hover := Session.window_of_due (hq.paced.inPace s' (Or.inr trivial))
    (hq.witnessed s' hlt) hnow (hclient ▸ hpolls) (hclient ▸ hwindow) hdue
  exact (add_le_add_left hlast _).trans hover

/-! ### A client that is served, and falls silent -/

/-- A request of the client. -/
def requestOf (client : String) : Requester := ⟨client, "a", "api", "10.0.0.1", "client/1.0"⟩

/-- A request of the client is served. -/
def serve (client : String) : List (AtomicOp × Time) :=
  [(.queue (.setReady true), 0), (.queue (.admitQueued (requestOf client) "/x" 1 1 1), 1),
    (.queue (.release 0 1 1), 1)]

/-- The queue after that. -/
def served (cfg : QueueConfig) (client : String) : EndpointQueue :=
  ((firstArrived cfg (requestOf client)).promote 1 0).finish 0 1

theorem served_sessions (cfg : QueueConfig) (client : String) :
    (served cfg client).sessions.entries = [((client, "a"), 0)] := rfl

theorem served_client (cfg : QueueConfig) (client : String) :
    ((served cfg client).objs 0).client = client := rfl

theorem served_spotHeld (cfg : QueueConfig) (client : String) :
    ((served cfg client).objs 0).spotHeld = true := rfl

theorem served_inflight (cfg : QueueConfig) (client : String) :
    ((served cfg client).objs 0).inflight = 0 := rfl

theorem served_clientStatus (cfg : QueueConfig) (client : String) :
    ((served cfg client).objs 0).clientStatus = none := rfl

theorem served_lastRequestAt (cfg : QueueConfig) (client : String) :
    ((served cfg client).objs 0).lastRequestAt = 1 := rfl

theorem served_idleSince (cfg : QueueConfig) (client : String) :
    ((served cfg client).objs 0).idleSince = none := rfl

theorem served_of_release (cfg : QueueConfig) (client : String) :
    ((firstArrived cfg (requestOf client)).promote 1 0).step (.release 0 1 1) =
      some (served cfg client) := by
  have hrunning : ((firstArrived cfg (requestOf client)).promote 1 0).running = [0] := rfl
  have hqueue : (served cfg client).queue = [] := rfl
  have hnone : (served cfg client).tryPromote 1 = served cfg client :=
    tryPromote_of_none (by simp [hqueue]) 1
  have hmem : 0 ∈ ((firstArrived cfg (requestOf client)).promote 1 0).running := by
    simp [hrunning]
  rw [step_release hmem]
  exact congrArg some hnone

theorem run_serve (cfg : QueueConfig) (clients : Clients) (client : String) :
    Run (Steps step (Admits clients)) (init cfg 0) (serve client) ⟨served cfg client, 1⟩ := by
  have hready : (init cfg 0).step (.queue (.setReady true), 0) =
      some ⟨{ EndpointQueue.init cfg with ready := true }, 0⟩ := rfl
  have harrives : step ⟨{ EndpointQueue.init cfg with ready := true }, 0⟩
      (.queue (.admitQueued (requestOf client) "/x" 1 1 1), 1) =
        some ⟨(firstArrived cfg (requestOf client)).promote 1 0, 1⟩ := by
    rw [← firstArrived_tryPromote]
    rfl
  have hfinishes : step ⟨(firstArrived cfg (requestOf client)).promote 1 0, 1⟩
      (.queue (.release 0 1 1), 1) = some ⟨served cfg client, 1⟩ :=
    congrArg (Option.map fun q => (⟨q, 1⟩ : Timed)) (served_of_release cfg client)
  refine .head ⟨hready, le_rfl, fun t ht => ht.elim, fun s hs => ?_⟩
    (.head ⟨harrives, zero_le_one, fun t ht => ?_, fun s hs => ?_⟩
      (.single ⟨hfinishes, le_rfl, fun t ht => ?_, fun s hs => ?_⟩))
  · cases hs
  · rcases ht with rfl | rfl | rfl <;> exact ⟨zero_le_one, le_rfl⟩
  · cases hs
  · rcases ht with rfl | rfl <;> exact ⟨le_rfl, le_rfl⟩
  · cases hs

/-- A tick at one reading, of a queue with the reading before it. -/
theorem admits_tick (T : Timed) (clients : Clients) {now : Time} (hnow : T.clock ≤ now) :
    T.Admits clients (.queue (.tick now fun _ => now), now) where
  clock := hnow
  reads := by
    rintro t (rfl | ⟨-, rfl⟩) <;> exact ⟨hnow, le_rfl⟩
  polled := fun s hs => by cases hs

/-- A tick surrenders the spot of the only session when its deadline has come. -/
theorem mem_released_of_single {q : EndpointQueue} {key : Key} {now : Time}
    (hentries : q.sessions.entries = [(key, 0)]) (hheld : (q.objs 0).spotHeld = true)
    (hdue : ((q.objs 0).recompute q.cfg now).due q.cfg now = true) :
    key ∈ (q.tick now fun _ => now).2.map Prod.fst := by
  refine mem_released_iff.mpr ⟨(q, key, 0), ?_, rfl, Bool.and_eq_true_iff.mpr ⟨hheld, hdue⟩⟩
  rw [visits, hentries]
  exact List.mem_cons_self

/-- Before that, it only recomputes the status of the session. -/
theorem tick_of_single {q : EndpointQueue} {key : Key} {now : Time}
    (hentries : q.sessions.entries = [(key, 0)]) (hheld : (q.objs 0).spotHeld = true)
    (hdue : ((q.objs 0).recompute q.cfg now).due q.cfg now = false) :
    (q.tick now fun _ => now).1 = q.recomputeAt 0 now := by
  have hsur : q.surrenders 0 now = false := Bool.and_eq_false_iff.mpr (Or.inr hdue)
  rw [tick, hentries]
  show (q.visit now now key 0).1 = _
  rcases visit_cases q now now key 0 with ⟨hyes, -⟩ | ⟨-, hspot, -⟩ | ⟨-, -, heq⟩
  · rw [hsur] at hyes
    cases hyes
  · rw [hheld] at hspot
    cases hspot
  · exact heq

/-- The only session of a known client that is silent is surrendered at its deadline; the client
may not be polled. -/
theorem deadline_of_keepsWindow (h : KeepsWindow cfg clients client) (hknown : client ≠ "unknown")
    (hrun : Run (Steps step (Admits clients)) (init cfg clock) ls T) {key : Key} (now : Time)
    (hentries : T.queue.sessions.entries = [(key, 0)]) (hclient : (T.queue.objs 0).client = client)
    (hheld : (T.queue.objs 0).spotHeld = true) (hidle : (T.queue.objs 0).inflight = 0)
    (hsilent : (T.queue.objs 0).clientStatus = none) (hnow : T.clock ≤ now)
    (hover : (T.queue.objs 0).idleSince.getD now + cfg.sessionExpiry ≤ now) :
    (T.queue.objs 0).lastRequestAt + max cfg.busyWindow cfg.sessionExpiry ≤ now := by
  have hs : T.queue.sessions.get? key = some 0 := by
    simp [OrdDict.get?, hentries]
  have hdue : ((T.queue.objs 0).recompute T.queue.cfg now).due T.queue.cfg now = true := by
    rw [(inferred_of_run hrun).cfg_eq,
      Session.due_recompute_of_silent (by rwa [hclient]) hidle hsilent]
    exact decide_eq_true hover
  exact h clock ls T hrun now _ now (admits_tick T clients hnow) key 0 hs hclient
    (mem_released_of_single hentries hheld hdue)

/-- A known client that has just been served and does not report keeps its spot for the expiry
alone. -/
theorem window_of_silent (h : KeepsWindow cfg clients client) (hknown : client ≠ "unknown")
    (hrun : Run (Steps step (Admits clients)) (init cfg clock) ls T) {key : Key}
    (hentries : T.queue.sessions.entries = [(key, 0)]) (hclient : (T.queue.objs 0).client = client)
    (hheld : (T.queue.objs 0).spotHeld = true) (hidle : (T.queue.objs 0).inflight = 0)
    (hsilent : (T.queue.objs 0).clientStatus = none)
    (hlast : (T.queue.objs 0).lastRequestAt = T.clock)
    (hsince : (T.queue.objs 0).idleSince = none) : cfg.busyWindow ≤ max 0 cfg.sessionExpiry := by
  rcases le_or_gt cfg.sessionExpiry 0 with hexp | hexp
  · -- the first tick that finds the session idle surrenders its spot
    have hover : (T.queue.objs 0).idleSince.getD T.clock + cfg.sessionExpiry ≤ T.clock := by
      rw [hsince]
      exact add_le_of_nonpos_right hexp
    have hearly := deadline_of_keepsWindow h hknown hrun T.clock hentries hclient hheld hidle
      hsilent le_rfl hover
    rw [hlast, add_le_iff_nonpos_right] at hearly
    exact le_max_of_le_left ((le_max_left _ _).trans hearly)
  · -- the first tick starts the countdown, and a later one surrenders the spot
    have hcfg := (inferred_of_run hrun).cfg_eq
    have hdue : ((T.queue.objs 0).recompute T.queue.cfg T.clock).due T.queue.cfg T.clock =
        false := by
      rw [hcfg, Session.due_recompute_of_silent (by rwa [hclient]) hidle hsilent, hsince]
      exact decide_eq_false (not_le.mpr (lt_add_of_pos_right _ hexp))
    have htick : T.step (.queue (.tick T.clock fun _ => T.clock), T.clock) =
        some ⟨T.queue.recomputeAt 0 T.clock, T.clock⟩ := by
      rw [← tick_of_single hentries hheld hdue]
      rfl
    have hidling := hrun.snoc ⟨htick, admits_tick T clients le_rfl⟩
    have hobj : (T.queue.recomputeAt 0 T.clock).objs 0 =
        (T.queue.objs 0).recompute T.queue.cfg T.clock :=
      Heap.modify_self _ _ _
    have hstart : ((T.queue.objs 0).recompute T.queue.cfg T.clock).idleSince = some T.clock := by
      rw [Session.recompute_idleSince_of_silent (by rwa [hclient]) hidle hsilent, hsince]
      rfl
    have hearly := deadline_of_keepsWindow h hknown hidling (T.clock + cfg.sessionExpiry) hentries
      (by rw [hobj]; exact hclient) (by rw [hobj]; exact hheld) (by rw [hobj]; exact hidle)
      (by rw [hobj]; exact hsilent) (le_add_of_nonneg_right hexp.le)
      (by rw [hobj, hstart]; exact le_rfl)
    have hlast' : ((T.queue.objs 0).recompute T.queue.cfg T.clock).lastRequestAt = T.clock := hlast
    rw [hobj, hlast'] at hearly
    exact le_max_of_le_right ((le_max_left _ _).trans (le_of_add_le_add_left hearly))

theorem window_of_keepsWindow (hknown : client ≠ "unknown") (h : KeepsWindow cfg clients client) :
    cfg.busyWindow ≤ max 0 cfg.sessionExpiry :=
  window_of_silent h hknown (run_serve cfg clients client) (served_sessions cfg client)
    (served_client cfg client) (served_spotHeld cfg client) (served_inflight cfg client)
    (served_clientStatus cfg client) (served_lastRequestAt cfg client)
    (served_idleSince cfg client)

/-- **When clients without a status source get the busy window.** Over every run of atomic
operations under a clock that does not go back, no tick surrenders the spot of a client that is
never polled before the longer of the busy window and the expiry has passed since its last
request, exactly when the client is `unknown`, or the busy window is not the longer one. -/
theorem keepsWindow_iff (hunpolled : clients.Unpolled client) :
    KeepsWindow cfg clients client ↔
      client = "unknown" ∨ cfg.busyWindow ≤ max 0 cfg.sessionExpiry := by
  constructor
  · exact fun h => or_iff_not_imp_left.mpr fun hknown => window_of_keepsWindow hknown h
  · exact keepsWindow_of_window hunpolled.not_polls

/-- A client without a status source. -/
def quietClient : ClientConfig := ⟨"claude", "claude/", ["x-claude-session"], [], .none⟩

def quietClients : Clients := ⟨[quietClient], List.nodup_singleton _⟩

theorem quietClients_unpolled : quietClients.Unpolled "claude" :=
  Or.inr ⟨quietClient, List.mem_singleton_self _, rfl, rfl⟩

/-- Two minutes of busy window, ten minutes of expiry. -/
def tenMinutes : QueueConfig := .ofArgs 1 (-1) 120 600 false false

/-- Two minutes of busy window, one minute of expiry. -/
def oneMinute : QueueConfig := .ofArgs 1 (-1) 120 60 false false

theorem keepsWindow_iff_tenMinutes : KeepsWindow tenMinutes quietClients "claude" := by
  refine (keepsWindow_iff quietClients_unpolled).mpr (Or.inr ?_)
  exact le_max_of_le_right (by decide +kernel)

theorem keepsWindow_counterexample :
    ¬ ∀ (cfg : QueueConfig) (clients : Clients) (client : String),
      clients.Unpolled client → KeepsWindow cfg clients client := by
  intro hclaim
  have hkeeps := hclaim oneMinute quietClients "claude" quietClients_unpolled
  have hwindow := window_of_keepsWindow (by decide) hkeeps
  revert hwindow
  decide +kernel

end Timed

end Relay
