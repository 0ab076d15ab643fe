import Relay.Endpoint.Balance
import Relay.Endpoint.Manager

/-!
# Relay.Endpoint.Fleet

The endpoints of a proxy with their queue managers, which share the pollers. Requests on any
endpoint and the managers of all of them interleave at every await; `clock` is the latest
reading of the monotonic clock, and a step makes its readings between that and a later one.

Two things are recorded besides: the surrenders of the ticks and the polls that came to their
end. No step reads them.
-/

namespace Relay

/-- The two answers read as an idle report of the session: its entry in the map is missing, no
object, or idle. -/
def readsIdle (data : Option StatusMap) (pending : Option PendingMap) (sessionId : String) : Bool :=
  decide ((reportOf data pending sessionId).map Prod.fst = some .idle)

/-- A spot that a tick takes from a session: the session as the tick found it, the reading the
tick goes by, and the clock as the spot is given up. `source` is when the status map arrived
from which the session was last read idle. -/
structure Surrender where
  cfg : QueueConfig
  session : Session
  now : Time
  at' : Time
  source : Time

/-- An endpoint with its queue manager. `source`, when the status map arrived that a session
was last read idle from, is a history variable. -/
structure Station where
  endpoint : Endpoint
  manager : ManagerPhase
  source : SessionRef → Time

/-- The endpoints, and what they share. -/
structure Fleet where
  stations : List Station
  pollers : OrdDict String Poller
  clock : Time
  finished : List (Nat × Poll)
  surrenders : List Surrender

namespace Endpoint

/-- The clock readings of a step. -/
def Op.readings : Op → List Time
  | .resume _ input => [input.now, input.stampAt, input.promoteAt]
  | .manage (.releaseSession _ _ promoteAt) => [promoteAt]
  | .manage (.tryPromote now) => [now]
  | _ => []

/-- The step is one of the queue manager. -/
def Op.isManagers : Op → Bool
  | .manage (.tick _ _) | .manage (.setClientStatus _ _ _ _) | .manage (.setSharedSpotKey _ _) =>
      true
  | _ => false

end Endpoint

namespace Fleet

/-- What happens on an endpoint, or in a manager: a pass starts, or it goes on. -/
inductive Op
  | endpoint (i : Nat) (op : Endpoint.Op)
  | start (i : Nat) (answer : Answer)
  | resume (i : Nat) (answer : Answer)

/-- The proxy has started. -/
def init (cfgs : List EndpointConfig) (pollers : OrdDict String Poller) (clock : Time) : Fleet where
  stations := cfgs.map (fun cfg => ⟨.init cfg, .asleep, fun _ => 0⟩)
  pollers := pollers
  clock := clock
  finished := []
  surrenders := []

variable (F : Fleet)

/-- The sessions of a machine that are tracked on any endpoint. -/
def tracked (m : Machine) : List WatchedSession :=
  F.stations.zipIdx.flatMap (fun p =>
    (p.1.endpoint.queue.sessions.values.filter (fun s =>
      decide (machineOf F.pollers (p.1.endpoint.queue.objs s) = some (m.client, m.base)))).map
      (fun s => (p.2, s)))

/-- What the manager of a station writes. -/
def desk (st : Station) : Desk := ⟨st.endpoint.queue, F.pollers, []⟩

/-- The surrenders of a tick. -/
def surrendersOf (q : EndpointQueue) (source : SessionRef → Time) (now : Time)
    (promoteAt : Key → Time) : List Surrender :=
  ((q.visits now promoteAt).filter (fun v => v.1.surrenders v.2.2 now)).map (fun v =>
    ⟨q.cfg, v.1.objs v.2.2, now, promoteAt v.2.1, source v.2.2⟩)

/-- The sources after a merge. -/
def sourceAfter (st : Station) (pollers : OrdDict String Poller) (answer : Answer) :
    SessionRef → Time :=
  match st.manager with
  | .fetchingPending _ poll _ sessions _ data receivedAt => fun s =>
      let D : Desk := ⟨st.endpoint.queue, pollers, []⟩
      let pending := fetchPending (D.pollerOf poll.machine).pendingKinds answer.pending
      if s ∈ sessions ∧ readsIdle data pending (st.endpoint.queue.objs s).sessionId then receivedAt
      else st.source s
  | _ => st.source

/-- A manager has come to its next phase; from the end of its polls it goes on to `queue.tick`
and to sleep. -/
def settled (st : Station) (source : SessionRef → Time) (answer : Answer)
    (result : Desk × ManagerPhase) : Station :=
  match result.2 with
  | .surrendering pass =>
      { endpoint := { st.endpoint with queue := (result.1.queue.tick pass.now answer.promoteAt).1 }
        manager := .asleep
        source := source }
  | phase =>
      { endpoint := { st.endpoint with queue := result.1.queue }
        manager := phase
        source := source }

/-- The surrenders of a manager that has come to its next phase. -/
def surrendersAfter (source : SessionRef → Time) (answer : Answer)
    (result : Desk × ManagerPhase) : List Surrender :=
  match result.2 with
  | .surrendering pass => surrendersOf result.1.queue source pass.now answer.promoteAt
  | _ => []

/-- The fleet after a step of the manager of station `i`. -/
def settle (i : Nat) (st : Station) (answer : Answer) (clock : Time)
    (result : Desk × ManagerPhase) : Fleet where
  stations := F.stations.set i (settled st (sourceAfter st F.pollers answer) answer result)
  pollers := result.1.pollers
  clock := clock
  finished := F.finished ++ result.1.finished.map (fun p => (i, p))
  surrenders := F.surrenders ++ surrendersAfter (sourceAfter st F.pollers answer) answer result

/-- The part of a step before `queue.tick`, when it is one of a manager. -/
def segment (st : Station) : Op → Option (Desk × ManagerPhase)
  | .endpoint _ _ => none
  | .start _ answer =>
      match st.manager with
      | .asleep => some ((F.desk st).start answer F.tracked)
      | _ => none
  | .resume _ answer => (F.desk st).resume answer F.tracked st.manager

/-- The clock does not go back, and the readings are made between the steps. -/
def timely (clock : Time) (readings : List Time) : Bool :=
  decide (F.clock ≤ clock ∧ ∀ t ∈ readings, F.clock ≤ t ∧ t ≤ clock)

/-- A manager makes its readings one after the other; the last are those of the promotions. -/
def inOrder (clock : Time) (keys : List Key) (answer : Answer) : Bool :=
  decide (F.clock ≤ answer.now ∧ answer.now ≤ answer.stampAt ∧ answer.stampAt ≤ clock ∧
    ∀ key ∈ keys, answer.stampAt ≤ answer.promoteAt key ∧ answer.promoteAt key ≤ clock)

/-- One step, after which the clock has come to `l.2`. -/
def step (l : Op × Time) : Option Fleet :=
  match l.1 with
  | .endpoint i op =>
      (F.stations[i]?).bind (fun st =>
        if op.isManagers = false ∧ F.timely l.2 op.readings then
          (st.endpoint.step op).map (fun E =>
            { F with stations := F.stations.set i { st with endpoint := E }, clock := l.2 })
        else none)
  | .start i answer | .resume i answer =>
      (F.stations[i]?).bind (fun st =>
        if F.inOrder l.2 st.endpoint.queue.sessions.keys answer then
          (F.segment st l.1).map (F.settle i st answer l.2)
        else none)

/-! ### What a step does -/

variable {F} {F' : Fleet}

/-- A step of an endpoint. -/
structure EndpointStep (F : Fleet) (i : Nat) (op : Endpoint.Op) (clock : Time) (st : Station)
    (E : Endpoint) : Prop where
  station : F.stations[i]? = some st
  step : st.endpoint.step op = some E
  notManagers : op.isManagers = false
  clock_le : F.clock ≤ clock
  readings : ∀ t ∈ op.readings, F.clock ≤ t ∧ t ≤ clock

/-- A step of the manager of a station. -/
structure ManagerStep (F : Fleet) (i : Nat) (op : Op) (answer : Answer) (clock : Time)
    (st : Station) (result : Desk × ManagerPhase) : Prop where
  op_eq : op = .start i answer ∨ op = .resume i answer
  station : F.stations[i]? = some st
  segment : F.segment st op = some result
  clock_le_now : F.clock ≤ answer.now
  now_le_stampAt : answer.now ≤ answer.stampAt
  stampAt_le : answer.stampAt ≤ clock
  promoteAt : ∀ key ∈ st.endpoint.queue.sessions.keys,
    answer.stampAt ≤ answer.promoteAt key ∧ answer.promoteAt key ≤ clock

theorem step_cases {l : Op × Time} (h : F.step l = some F') :
    (∃ i op st E, l.1 = .endpoint i op ∧ F.EndpointStep i op l.2 st E ∧
      F' = { F with stations := F.stations.set i { st with endpoint := E }, clock := l.2 }) ∨
    (∃ i answer st result, F.ManagerStep i l.1 answer l.2 st result ∧
      F' = F.settle i st answer l.2 result) := by
  obtain ⟨op, clock⟩ := l
  have hmanager : ∀ i answer, op = .start i answer ∨ op = .resume i answer →
      (F.stations[i]?).bind (fun st =>
        if F.inOrder clock st.endpoint.queue.sessions.keys answer then
          (F.segment st op).map (F.settle i st answer clock)
        else none) = some F' →
      ∃ i answer st result, F.ManagerStep i op answer clock st result ∧
        F' = F.settle i st answer clock result := by
    intro i answer hop h
    obtain ⟨st, hst, h⟩ := Option.bind_eq_some_iff.mp h
    obtain ⟨horder, hmap⟩ := Option.ite_none_right_eq_some.mp h
    obtain ⟨result, hsegment, rfl⟩ := Option.map_eq_some_iff.mp hmap
    obtain ⟨hnow, hstamp, hend, hpromote⟩ := of_decide_eq_true horder
    exact ⟨i, answer, st, result, ⟨hop, hst, hsegment, hnow, hstamp, hend, hpromote⟩, rfl⟩
  cases op with
  | endpoint i op =>
      obtain ⟨st, hst, h⟩ := Option.bind_eq_some_iff.mp h
      obtain ⟨⟨hop, htimely⟩, hmap⟩ := Option.ite_none_right_eq_some.mp h
      obtain ⟨E, hE, rfl⟩ := Option.map_eq_some_iff.mp hmap
      obtain ⟨hclock, hreadings⟩ := of_decide_eq_true htimely
      exact Or.inl ⟨i, op, st, E, rfl, ⟨hst, hE, hop, hclock, hreadings⟩, rfl⟩
  | start i answer => exact Or.inr (hmanager i answer (Or.inl rfl) h)
  | resume i answer => exact Or.inr (hmanager i answer (Or.inr rfl) h)

/-- A segment is the start of a pass from sleep, or goes on with one. -/
theorem ManagerStep.cases {i : Nat} {op : Op} {answer : Answer} {clock : Time} {st : Station}
    {result : Desk × ManagerPhase} (h : F.ManagerStep i op answer clock st result) :
    (op = .start i answer ∧ st.manager = .asleep ∧
      result = (F.desk st).start answer F.tracked) ∨
    (op = .resume i answer ∧ (F.desk st).resume answer F.tracked st.manager = some result) := by
  have hsegment := h.segment
  rcases h.op_eq with rfl | rfl
  · left
    unfold Fleet.segment at hsegment
    dsimp only at hsegment
    split at hsegment
    · rename_i hasleep
      exact ⟨rfl, hasleep, (Option.some.inj hsegment).symm⟩
    · exact absurd hsegment (by simp)
  · exact Or.inr ⟨rfl, hsegment⟩

/-- After the merge, what sharing spots keeps, a manager keeps up to its tick. -/
theorem ManagerStep.of_merged {i : Nat} {op : Op} {answer : Answer} {clock : Time} {st : Station}
    {result : Desk × ManagerPhase} (h : F.ManagerStep i op answer clock st result)
    {I : EndpointQueue → Prop} (hshare : ∀ q s key, I q → I (q.setSharedSpotKey s key))
    (hI : I ((F.desk st).merged answer st.manager).queue) : I result.1.queue := by
  rcases h.cases with ⟨-, hasleep, rfl⟩ | ⟨-, hresume⟩
  · rw [hasleep] at hI
    exact Desk.start_queue hshare hI
  · exact Desk.resume_queue hshare hI hresume

/-- What sharing a spot and reporting a status keep, a manager keeps up to its tick. -/
theorem ManagerStep.written {i : Nat} {op : Op} {answer : Answer} {clock : Time} {st : Station}
    {result : Desk × ManagerPhase} (h : F.ManagerStep i op answer clock st result)
    {I : EndpointQueue → Prop} (hshare : ∀ q s key, I q → I (q.setSharedSpotKey s key))
    (hreport : ∀ q s data pending reported, I q →
      I { q with objs := q.objs.modify s (Session.report data pending reported) })
    (hI : I st.endpoint.queue) : I result.1.queue :=
  h.of_merged hshare (Desk.merged_queue (D := F.desk st) hreport hI st.manager)

/-- What every cosmetic change of a session keeps, a manager keeps up to its tick. -/
theorem ManagerStep.cosmetic {i : Nat} {op : Op} {answer : Answer} {clock : Time} {st : Station}
    {result : Desk × ManagerPhase} (h : F.ManagerStep i op answer clock st result)
    {I : EndpointQueue → Prop}
    (hcosmetic : ∀ q s f, I q → Session.Cosmetic f → I { q with objs := q.objs.modify s f })
    (hI : I st.endpoint.queue) : I result.1.queue :=
  h.written (fun q s key hq => hcosmetic q s _ hq (Session.cosmetic_sharing key))
    (fun q s data pending reported hq =>
      hcosmetic q s _ hq (Session.cosmetic_report data pending reported)) hI

theorem ManagerStep.clock_le {i : Nat} {op : Op} {answer : Answer} {clock : Time} {st : Station}
    {result : Desk × ManagerPhase} (h : F.ManagerStep i op answer clock st result) :
    F.clock ≤ clock :=
  (h.clock_le_now.trans h.now_le_stampAt).trans h.stampAt_le

/-- The reading a pass was started with is no later than those of the segment. -/
theorem ManagerStep.pass_now {i : Nat} {op : Op} {answer : Answer} {clock : Time} {st : Station}
    {result : Desk × ManagerPhase} (h : F.ManagerStep i op answer clock st result)
    (hpass : ∀ pass, st.manager.pass? = some pass → pass.now ≤ F.clock) :
    ∃ pass, result.2.pass? = some pass ∧ pass.now ≤ answer.now := by
  rcases h.cases with ⟨-, -, rfl⟩ | ⟨-, hresume⟩
  · obtain ⟨pass, hpass', hnow⟩ := Desk.start_pass (D := F.desk st) answer F.tracked
    exact ⟨pass, hpass', hnow.le⟩
  · obtain ⟨pass, pass', hold, hnew, hnow⟩ := Desk.resume_pass hresume
    exact ⟨pass', hnew, hnow.le.trans ((hpass pass hold).trans h.clock_le_now)⟩

/-- What the steps of an endpoint and of its manager keep of a station, every step keeps of all
stations. -/
theorem stations_step {J : Time → Station → Prop} {l : Op × Time}
    (hmono : ∀ t t' st, t ≤ t' → J t st → J t' st)
    (hendpoint : ∀ i op st E, l.1 = .endpoint i op → F.EndpointStep i op l.2 st E → J F.clock st →
      J l.2 { st with endpoint := E })
    (hmanager : ∀ i answer st result, F.ManagerStep i l.1 answer l.2 st result → J F.clock st →
      J l.2 (settled st (sourceAfter st F.pollers answer) answer result))
    (h : F.step l = some F') (hJ : ∀ st ∈ F.stations, J F.clock st) :
    ∀ st ∈ F'.stations, J F'.clock st := by
  rcases step_cases h with ⟨i, op, st, E, hop, hstep, rfl⟩ | ⟨i, answer, st, result, hstep, rfl⟩
  · intro st' hst'
    rcases List.mem_or_eq_of_mem_set hst' with hold | rfl
    · exact hmono _ _ _ hstep.clock_le (hJ st' hold)
    · exact hendpoint i op st E hop hstep (hJ st (List.mem_of_getElem? hstep.station))
  · intro st' hst'
    rcases List.mem_or_eq_of_mem_set hst' with hold | rfl
    · exact hmono _ _ _ hstep.clock_le (hJ st' hold)
    · exact hmanager i answer st result hstep (hJ st (List.mem_of_getElem? hstep.station))

@[simp] theorem settled_source (st : Station) (source : SessionRef → Time) (answer : Answer)
    (result : Desk × ManagerPhase) : (settled st source answer result).source = source := by
  unfold settled
  split <;> rfl

/-- What cosmetic changes and ticks keep of a queue, the manager keeps. -/
theorem ManagerStep.managed {i : Nat} {op : Op} {answer : Answer} {clock : Time} {st : Station}
    {result : Desk × ManagerPhase} (h : F.ManagerStep i op answer clock st result)
    (source : SessionRef → Time) {I : EndpointQueue → Prop} (hI : EndpointQueue.Managed I)
    (hqueue : I st.endpoint.queue) :
    ∃ q, I q ∧ (settled st source answer result).endpoint = { st.endpoint with queue := q } := by
  have hresult := h.cosmetic hI.cosmetic hqueue
  unfold settled
  split
  · exact ⟨_, hI.tick hresult _ _, rfl⟩
  · exact ⟨_, hresult, rfl⟩

/-- The counters of an endpoint are right, and its manager is in no pass that started after
`t`. -/
structure Orderly (t : Time) (st : Station) : Prop where
  balanced : ∃ cfg, st.endpoint.Balanced cfg
  pass_now : ∀ pass, st.manager.pass? = some pass → pass.now ≤ t

theorem Orderly.manager {i : Nat} {op : Op} {answer : Answer} {clock : Time} {st : Station}
    {result : Desk × ManagerPhase} (hst : Orderly F.clock st)
    (h : F.ManagerStep i op answer clock st result) (source : SessionRef → Time) :
    Orderly clock (settled st source answer result) where
  balanced := by
    obtain ⟨cfg, hbalanced⟩ := hst.balanced
    obtain ⟨q, hq, heq⟩ := h.managed source EndpointQueue.managed_steady hbalanced.steady
    exact ⟨cfg, heq ▸ hbalanced.of_steady hq⟩
  pass_now := by
    obtain ⟨pass, hpass, hnow⟩ := h.pass_now hst.pass_now
    intro pass' hpass'
    unfold settled at hpass'
    split at hpass'
    · exact absurd hpass' (by simp [ManagerPhase.pass?])
    · obtain rfl := Option.some.inj (hpass.symm.trans hpass')
      exact hnow.trans (h.now_le_stampAt.trans h.stampAt_le)

theorem Orderly.mono {t t' : Time} {st : Station} (h : Orderly t st) (hle : t ≤ t') :
    Orderly t' st :=
  ⟨h.balanced, fun pass hpass => (h.pass_now pass hpass).trans hle⟩

theorem Orderly.endpoint {i : Nat} {op : Endpoint.Op} {clock : Time} {st : Station}
    {E : Endpoint} (h : Orderly F.clock st) (hstep : F.EndpointStep i op clock st E) :
    Orderly clock { st with endpoint := E } := by
  obtain ⟨cfg, hbalanced⟩ := h.balanced
  exact ⟨⟨cfg, hbalanced.step hstep.step⟩, (h.mono hstep.clock_le).pass_now⟩

theorem orderly_step {l : Op × Time} (h : F.step l = some F')
    (hF : ∀ st ∈ F.stations, Orderly F.clock st) : ∀ st ∈ F'.stations, Orderly F'.clock st :=
  stations_step (J := Orderly) (fun _ _ _ hle hst => hst.mono hle)
    (fun _ _ _ _ _ hstep hst => hst.endpoint hstep)
    (fun _ _ _ _ hstep hst => hst.manager hstep _) h hF

theorem orderly_init (cfgs : List EndpointConfig) (pollers : OrdDict String Poller)
    (clock : Time) : ∀ st ∈ (init cfgs pollers clock).stations, Orderly clock st := by
  intro st hst
  obtain ⟨cfg, -, rfl⟩ := List.mem_map.mp hst
  exact ⟨⟨cfg, .init cfg⟩, fun pass hpass => absurd hpass (by simp [ManagerPhase.pass?])⟩

/-! ### Runs on fixed inputs -/

/-- A client with one machine whose status API is asked every five seconds. -/
def oneClient : OrdDict String Poller :=
  OrdDict.empty.insert "opencode"
    { parentChain := true
      childrenDepth := 10
      pendingKinds := ["permission", "question"]
      port := 4096
      pollInterval := 5 }

/-- A request of that client. -/
def requested (sessionId : String) : Request :=
  { kind := .http
    requester := ⟨"opencode", sessionId, "api", "10.0.0.1", "opencode"⟩
    path := "/x" }

/-- A step of an endpoint at `t`. -/
def on (i : Nat) (op : Endpoint.Op) (t : Time) : Op × Time := (.endpoint i op, t)

/-- A task of an endpoint goes on at `t`. -/
def runs (i task : Nat) (t : Time) : Op × Time :=
  (.endpoint i (.resume task { now := t, stampAt := t, promoteAt := t }), t)

/-- A request of session `a` is admitted on endpoint 0, and forwarded. -/
def admission : List (Op × Time) :=
  [on 0 (.manage (.setReady true)) 0, on 0 (.arrive (requested "a")) 1, runs 0 0 1, runs 0 0 2,
    runs 0 0 3]

/-- A manager without an answer makes all its readings at `t`. -/
def silent (t : Time) : Answer := { now := t, stampAt := t, promoteAt := fun _ => t }

/-- A manager wakes up at `t`. -/
def wakes (i : Nat) (t : Time) : Op × Time := (.start i (silent t), t)

/-- What a manager awaits has failed at `t`. -/
def fails (i : Nat) (t : Time) : Op × Time := (.resume i (silent t), t)

/-- The lookup of a session gives its directory. -/
def finds (i : Nat) (directory : String) (t : Time) : Op × Time :=
  (.resume i { silent t with info := some (200, some ⟨some directory, none⟩) }, t)

/-- A status map arrives. -/
def maps (i : Nat) (map : StatusMap) (t : Time) : Op × Time :=
  (.resume i { silent t with statuses := some (200, some map) }, t)

/-- The pending lists arrive, and they are empty. -/
def lists (i : Nat) (t : Time) : Op × Time :=
  (.resume i { silent t with pending := [some (200, some []), some (200, some [])] }, t)

end Fleet

end Relay
