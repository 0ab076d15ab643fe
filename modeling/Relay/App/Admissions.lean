import Relay.App.Flow

/-!
# Relay.App.Admissions

**Servers and endpoints see what the clients sent.** From a server, a run of the app is a run of
that server with its endpoints; the calls of its methods that come from outside are those the
requests ask for, in their order (`seen_from_server`). So what is proved of `System` holds of every
server of the app.

Admissions and handlers belong together one to one, and an admission has the endpoint, the kind
and the arguments that the request leads to (`admissions_earned`).
-/

namespace Relay

open Runs

namespace App

variable {platform : Platform} {tables : Topology.RelayApp} {rows : String → ServerRow}
  {degraded : Bool} {now : Time} {A₀ A A' : App} {ops : List Op}

/-- Every handler is where its request leads. -/
def AllRight (platform : Platform) (A : App) : Prop :=
  ∀ handler ∈ A.handlers, handler.phase.Right platform A.tables handler.asked

theorem AllRight.step {op : Op} (h : A.AllRight platform) (hstep : A.step platform op = some A') :
    A'.AllRight platform := by
  obtain ⟨labels, heffect⟩ := step_effect hstep h
  intro handler hhandler
  rw [heffect.tables]
  exact heffect.right h handler hhandler

/-! ### The servers -/

/-- The app has done some steps of its servers, in which its handlers called what they were to
call. -/
structure Did (platform : Platform) (A₀ A : App) (labels : List Label) : Prop where
  systems : exec (stepAt System.step) A₀.systems labels = some A.systems
  tables : A.tables = A₀.tables
  noRestart : ∀ label ∈ labels, isRestart label = false
  calls : A.handlers.filterMap (fun handler => handler.asked.call? platform A₀.tables) =
    labels.filterMap handlerCall?

theorem Did.step {labels labels' : List Label} (h : Did platform A₀ A labels)
    (heffect : Effect platform A A' labels') : Did platform A₀ A' (labels ++ labels') where
  systems := by
    rw [exec_append, h.systems]
    exact heffect.systems
  tables := heffect.tables.trans h.tables
  noRestart := fun label hlabel =>
    (List.mem_append.mp hlabel).elim (h.noRestart label) (heffect.noRestart label)
  calls := by
    rw [← h.tables, heffect.calls, h.tables, h.calls, List.filterMap_append]

theorem did_of_run (hempty : A₀.handlers = [])
    (hrun : Run (Steps (App.step platform) Any) A₀ ops A) :
    A.AllRight platform ∧ ∃ labels, Did platform A₀ A labels := by
  induction hrun with
  | nil =>
      refine ⟨fun handler hhandler => absurd (hempty ▸ hhandler) List.not_mem_nil, [], rfl, rfl,
        fun _ h => absurd h List.not_mem_nil, ?_⟩
      rw [hempty]
      rfl
  | snoc _ hlast ih =>
      obtain ⟨hright, labels, hdid⟩ := ih
      obtain ⟨labels', heffect⟩ := step_effect hlast.1 hright
      exact ⟨hright.step hlast.1, _, hdid.step heffect⟩

/-- The results of a `mapM` stand where their arguments do. -/
theorem exists_getElem?_of_mapM {α β : Type} {f : α → Option β} {l : List α} {l' : List β}
    (h : l.mapM f = some l') {i : Nat} {a : α} (ha : l[i]? = some a) :
    ∃ b, l'[i]? = some b ∧ f a = some b := by
  induction l generalizing l' i with
  | nil => exact absurd ha (by simp)
  | cons a' l ih =>
      rw [List.mapM_cons] at h
      obtain ⟨b, hb, hrest⟩ := Option.bind_eq_some_iff.mp h
      obtain ⟨l₁, hl₁, heq⟩ := Option.bind_eq_some_iff.mp hrest
      obtain rfl := Option.some.inj heq
      cases i with
      | zero => exact ⟨b, rfl, Option.some.inj ha ▸ hb⟩
      | succ i => exact ih hl₁ ha

theorem length_of_mapM {α β : Type} {f : α → Option β} {l : List α} {l' : List β}
    (h : l.mapM f = some l') : l'.length = l.length := by
  induction l generalizing l' with
  | nil =>
      obtain rfl : [] = l' := Option.some.inj h
      rfl
  | cons a l ih =>
      rw [List.mapM_cons] at h
      obtain ⟨b, -, hrest⟩ := Option.bind_eq_some_iff.mp h
      obtain ⟨l₁, hl₁, heq⟩ := Option.bind_eq_some_iff.mp hrest
      rw [← Option.some.inj heq, List.length_cons, List.length_cons, ih hl₁]

theorem exists_of_mem_mapM {α β : Type} {f : α → Option β} {l : List α} {l' : List β}
    (h : l.mapM f = some l') {b : β} (hb : b ∈ l') : ∃ a ∈ l, f a = some b := by
  obtain ⟨i, hi, rfl⟩ := List.getElem_of_mem hb
  have hlt : i < l.length := length_of_mapM h ▸ hi
  obtain ⟨b', hb', hf⟩ := exists_getElem?_of_mapM h (List.getElem?_eq_getElem hlt)
  rw [List.getElem?_eq_getElem hi] at hb'
  exact ⟨l[i], List.getElem_mem hlt, Option.some.inj hb' ▸ hf⟩

/-- A server starts as `System` does, and is restored from its row. -/
theorem startServer_eq {server : Topology.ServerRuntime} {S : System}
    (h : startServer platform tables rows degraded now server = some S) :
    ∃ config cfgs, server.config.settings platform = some config ∧
      server.endpoints.mapM (fun name =>
        (tables.endpoints.get? name).bind fun e => e.config.settings) = some cfgs ∧
      (System.init config (rows server.config.name) now cfgs).step
        (.server (.restart degraded now)) = some S := by
  obtain ⟨config, hconfig, hrest⟩ := Option.bind_eq_some_iff.mp h
  obtain ⟨cfgs, hcfgs, heq⟩ := Option.bind_eq_some_iff.mp hrest
  obtain rfl := Option.some.inj heq
  refine ⟨config, cfgs, hconfig, hcfgs, ?_⟩
  let S₁ := System.init config (rows server.config.name) now cfgs
  have hrestart : S₁.server.step S₁.hasActivity (.restart degraded now) =
      some (S₁.server.restart degraded now) := if_pos (le_refl now)
  refine (congrArg (Option.map _) hrestart).trans (congrArg some ?_)
  simp only [System.endpointsAfter, S₁, System.init, List.map_map]
  rfl

/-- At the start there is no handler. -/
theorem start_eq (h : App.start platform tables rows degraded now = some A₀) :
    tables.servers.values.mapM (startServer platform tables rows degraded now) =
        some A₀.systems ∧
      A₀.tables = tables ∧ A₀.handlers = [] ∧ A₀.unknown = .init ∧ A₀.trail = [] := by
  obtain ⟨systems, hsystems, hA₀⟩ := Option.bind_eq_some_iff.mp h
  obtain rfl := Option.some.inj hA₀
  exact ⟨hsystems, rfl, rfl, rfl, rfl⟩

/-- The calls of a server's methods that come from outside. -/
def outsideCalls (labels : List System.Op) : List Call :=
  labels.filterMap fun op => (handlerCall? (0, op)).map Prod.snd

/-- The calls that the requests of the app ask for at a server, in the order of the requests. -/
def callsFor (platform : Platform) (A : App) (server : Nat) : List Call :=
  A.handlers.filterMap fun handler =>
    ((handler.asked.call? platform A.tables).filter (fun asked => asked.1 = server)).map Prod.snd

theorem outsideCalls_labelsAt (n : Nat) (labels : List Label) :
    outsideCalls (labelsAt n labels) =
      (labels.filterMap handlerCall?).filterMap fun called =>
        (Option.some called).filter (fun called => called.1 = n) |>.map Prod.snd := by
  unfold outsideCalls labelsAt
  rw [List.filterMap_filterMap, List.filterMap_filterMap]
  refine List.filterMap_congr fun label _ => ?_
  obtain ⟨m, op⟩ := label
  by_cases hm : m = n
  · subst hm
    cases op with
    | server sop =>
        cases sop with
        | call call now => cases call <;> simp [handlerCall?]
        | _ => simp [handlerCall?]
    | endpoint eop => simp [handlerCall?]
  · cases op with
    | server sop =>
        cases sop with
        | call call now => cases call <;> simp [handlerCall?, hm]
        | _ => simp [handlerCall?, hm]
    | endpoint eop => simp [handlerCall?, hm]

/-! ### The admissions -/

/-- The admission `t` at a place. -/
def taskAt (A : App) (p : Place) (t : Nat) : Option Task := (A.endpointAt p).bind (·.tasks[t]?)

/-- Handlers at an admission and admissions belong together, one to one. -/
structure Matched (A : App) : Prop where
  taken : ∀ i p t request, A.admissionOf i = some (p, t, request) →
    (requestsIn A.systems p)[t]? = some request
  unique : ∀ i j p t request request', A.admissionOf i = some (p, t, request) →
    A.admissionOf j = some (p, t, request') → i = j
  every : ∀ p t, t < (requestsIn A.systems p).length →
    ∃ i request, A.admissionOf i = some (p, t, request)

theorem Matched.lt (h : Matched A) {i t : Nat} {p : Place} {request : Request}
    (hi : A.admissionOf i = some (p, t, request)) : t < (requestsIn A.systems p).length :=
  (List.getElem?_eq_some_iff.mp (h.taken i p t request hi)).1

/-- Nothing is admitted. -/
theorem Matched.same (h : Matched A)
    (hkept : ∀ p, requestsIn A'.systems p = requestsIn A.systems p)
    (hsame : ∀ i, A'.admissionOf i = A.admissionOf i) : Matched A' := by
  constructor
  · intro j p t request hj
    rw [hkept]
    exact h.taken j p t request (hsame j ▸ hj)
  · intro j k p t request request' hj hk
    exact h.unique j k p t request request' (hsame j ▸ hj) (hsame k ▸ hk)
  · intro p t ht
    obtain ⟨j, request, hj⟩ := h.every p t (hkept p ▸ ht)
    exact ⟨j, request, (hsame j).trans hj⟩

/-- The handler `i` gets to a new admission at `p`. -/
theorem Matched.snoc (h : Matched A) {i : Nat} {p : Place} {request : Request}
    (hgrown : ∀ p', requestsIn A'.systems p' =
      requestsIn A.systems p' ++ if p' = p then [request] else [])
    (hnew : A.admissionOf i = none)
    (hadmission : ∀ j, A'.admissionOf j =
      if j = i then some (p, (requestsIn A.systems p).length, request) else A.admissionOf j) :
    Matched A' := by
  have hat : ∀ j p' t request', A'.admissionOf j = some (p', t, request') →
      (j = i ∧ p' = p ∧ t = (requestsIn A.systems p).length ∧ request' = request) ∨
      (j ≠ i ∧ A.admissionOf j = some (p', t, request')) := by
    intro j p' t request' hj
    rw [hadmission] at hj
    split at hj
    · rename_i hji
      have heq := Option.some.inj hj
      simp only [Prod.mk.injEq] at heq
      exact Or.inl ⟨hji, heq.1.symm, heq.2.1.symm, heq.2.2.symm⟩
    · rename_i hji
      exact Or.inr ⟨hji, hj⟩
  constructor
  · intro j p' t request' hj
    rw [hgrown]
    rcases hat j p' t request' hj with ⟨-, rfl, rfl, rfl⟩ | ⟨-, hold⟩
    · simp
    · rw [List.getElem?_append_left (h.lt hold)]
      exact h.taken j p' t request' hold
  · intro j k p' t request₁ request₂ hj hk
    rcases hat j p' t request₁ hj with ⟨rfl, rfl, rfl, -⟩ | ⟨-, hj⟩
    · rcases hat k _ _ request₂ hk with ⟨rfl, -⟩ | ⟨-, hk⟩
      · rfl
      · exact absurd (h.lt hk) (lt_irrefl _)
    · rcases hat k p' t request₂ hk with ⟨rfl, rfl, rfl, -⟩ | ⟨-, hk⟩
      · exact absurd (h.lt hj) (lt_irrefl _)
      · exact h.unique j k p' t request₁ request₂ hj hk
  · intro p' t ht
    rw [hgrown] at ht
    by_cases hold : t < (requestsIn A.systems p').length
    · obtain ⟨j, request', hj⟩ := h.every p' t hold
      have hji : j ≠ i := by
        rintro rfl
        rw [hnew] at hj
        exact absurd hj (by simp)
      exact ⟨j, request', by rw [hadmission, if_neg hji, hj]⟩
    · by_cases hp : p' = p
      · subst hp
        have hlast : t = (requestsIn A.systems p').length := by
          simp at ht
          omega
        exact ⟨i, request, by rw [hadmission, if_pos rfl, hlast]⟩
      · rw [if_neg hp, List.append_nil] at ht
        exact absurd ht hold

theorem Matched.step {labels : List Label} (h : Matched A) (heffect : Effect platform A A' labels) :
    Matched A' := by
  have hrequests := requestsIn_exec heffect.systems heffect.noRestart
  rcases heffect.admissions with ⟨hnone, hsame⟩ | ⟨i, p, request, hone, hnew, hadmission⟩
  · exact h.same (fun p => by rw [hrequests, hnone, List.append_nil]) hsame
  · exact h.snoc (fun p' => by rw [hrequests, hone]) hnew hadmission

/-- No request has been admitted at the start. -/
theorem requestsIn_start (h : App.start platform tables rows degraded now = some A₀) (p : Place) :
    requestsIn A₀.systems p = [] := by
  obtain ⟨hsystems, -⟩ := start_eq h
  unfold requestsIn
  cases hE : (A₀.systems[p.server]?).bind (·.endpoints[p.endpoint]?) with
  | none => rfl
  | some E =>
      obtain ⟨S, hS, hE⟩ := Option.bind_eq_some_iff.mp hE
      obtain ⟨server, -, hserver⟩ := exists_of_mem_mapM hsystems (List.mem_of_getElem? hS)
      obtain ⟨config, -, hrest⟩ := Option.bind_eq_some_iff.mp hserver
      obtain ⟨cfgs, -, heq⟩ := Option.bind_eq_some_iff.mp hrest
      obtain rfl := Option.some.inj heq
      obtain ⟨cfg, -, rfl⟩ := List.mem_map.mp (List.mem_of_getElem? hE)
      rfl

theorem matched_of_run (hstart : App.start platform tables rows degraded now = some A₀)
    (hrun : Run (Steps (App.step platform) Any) A₀ ops A) : Matched A ∧ A.AllRight platform := by
  obtain ⟨-, -, hempty, -, -⟩ := start_eq hstart
  induction hrun with
  | nil =>
      have hnone : ∀ i, A₀.admissionOf i = none := fun i => by simp [admissionOf, hempty]
      refine ⟨⟨?_, ?_, ?_⟩, fun handler hhandler => ?_⟩
      · intro i p t request hi
        exact absurd hi (by simp [hnone])
      · intro i j p t request request' hi
        exact absurd hi (by simp [hnone])
      · intro p t ht
        rw [requestsIn_start hstart] at ht
        exact absurd ht (Nat.not_lt_zero t)
      · exact absurd (hempty ▸ hhandler) List.not_mem_nil
  | snoc _ hlast ih =>
      obtain ⟨hmatched, hright⟩ := ih
      obtain ⟨labels, heffect⟩ := step_effect hlast.1 hright
      exact ⟨hmatched.step heffect, hright.step hlast.1⟩

theorem request_taskAt {p : Place} {t : Nat} :
    (A.taskAt p t).map Task.request = (requestsIn A.systems p)[t]? := by
  unfold taskAt requestsIn endpointAt
  cases (A.systems[p.server]?).bind (·.endpoints[p.endpoint]?) <;> simp

/-! ### The bodies -/

/-- In the run `ops` the handler `i` awaited the body of its request, and was handed `body`. -/
def ReadBody (platform : Platform) (A₀ : App) (ops : List Op) (i : Nat) (asked : Asked)
    (body : List UInt8) : Prop :=
  ∃ before outcome after B e kind, ops = before ++ .resume i outcome (some body) :: after ∧
    exec (App.step platform) A₀ before = some B ∧ B.handlers[i]? = some ⟨asked, .reading e kind⟩

theorem ReadBody.snoc {i : Nat} {asked : Asked} {body : List UInt8}
    (h : ReadBody platform A₀ ops i asked body) (op : Op) :
    ReadBody platform A₀ (ops ++ [op]) i asked body := by
  obtain ⟨before, outcome, after, B, e, kind, rfl, hrest⟩ := h
  exact ⟨before, outcome, after ++ [op], B, e, kind, by simp, hrest⟩

/-- Every HTTP request has been admitted with the body that its handler read. -/
theorem readBody_of_run (hempty : A₀.handlers = [])
    (hrun : Run (Steps (App.step platform) Any) A₀ ops A) :
    ∀ (i : Nat) (handler : Handler) (e : Topology.EndpointRuntime) (t : Nat) (request : Request)
      (body : List UInt8) (inbound : Inbound) (recordAt : Time),
      A.handlers[i]? = some handler → handler.phase = .admitted e t request body →
      handler.asked = .http inbound recordAt → ReadBody platform A₀ ops i handler.asked body := by
  induction hrun with
  | nil =>
      intro i handler e t request body inbound recordAt hi
      rw [hempty] at hi
      exact absurd hi (by simp)
  | @snoc A A' ops op hbefore hlast ih =>
      intro i handler e t request body inbound recordAt hi hphase hasked
      have hsame : A.handlers[i]? = some handler →
          ReadBody platform A₀ (ops ++ [op]) i handler.asked body := fun hold =>
        (ih i handler e t request body inbound recordAt hold hphase hasked).snoc op
      rcases handlers_step hlast.1 with hhandlers | ⟨asked, phase, hhandlers, hread⟩ |
        ⟨j, other, outcome, given, phase, rfl, hj, hhandlers, hread⟩
      · exact hsame (hhandlers ▸ hi)
      · rw [hhandlers] at hi
        rcases Nat.lt_or_ge i A.handlers.length with hlt | hge
        · exact hsame ((List.getElem?_append_left hlt).symm.trans hi)
        · -- a handler that starts has read no body
          rw [List.getElem?_append_right hge] at hi
          obtain rfl := List.mem_singleton.mp (List.mem_of_getElem? hi)
          obtain rfl : phase = _ := hphase
          exact absurd (hread inbound recordAt hasked) (by simp)
      · rw [hhandlers] at hi
        by_cases hij : j = i
        · subst hij
          rw [List.getElem?_set_self (List.getElem?_eq_some_iff.mp hj).1] at hi
          obtain rfl := Option.some.inj hi
          obtain rfl : phase = _ := hphase
          have hgiven := hread inbound recordAt hasked
          cases hother : other.phase with
          | reading e' kind =>
              rw [hother] at hgiven
              obtain rfl : given = some body := hgiven
              refine ⟨ops, outcome, [], A, e', kind, rfl, exec_of_run hbefore, ?_⟩
              rw [hj, ← hother]
          | _ =>
              rw [hother] at hgiven
              exact absurd hgiven (by simp [HandlerPhase.given])
        · exact hsame ((List.getElem?_set_ne hij).symm.trans hi)

/-- An admission is for the handler `i`: its request leads to the endpoint, and gives the admission
its kind and, with the body that the handler has read, its arguments. -/
def AdmittedFor (platform : Platform) (A₀ : App) (ops : List Op) (A : App) (p : Place) (t : Nat)
    (task : Task) (i : Nat) (handler : Handler) : Prop :=
  ∃ e kind inbound body,
    handler.phase = .admitted e t task.request body ∧ place A.tables e = p ∧
    handler.asked.inbound? = some inbound ∧
    handler.asked.destination? A.tables = some (e, kind) ∧
    (∀ recordAt, handler.asked = .http inbound recordAt →
      ReadBody platform A₀ ops i handler.asked body) ∧
    task.request = admission platform A.tables e kind inbound body

/-! ### A run -/

/-- A server that is not adopted. -/
def devbox : Topology.ServerConfig where
  name := "devbox"
  type := .noop
  power := .noop .off
  serviceUrl := "http://127.0.0.1:8100"
  idleTimeout := .finite 600
  shutdownEnabled := true
  adoptOnTraffic := false
  schedule := none

/-- An endpoint for `/v1` and for the paths that no endpoint has. -/
def llm : Topology.EndpointConfig where
  name := "llm"
  server := "devbox"
  pathPrefix := "/v1"
  catchAll := true
  readiness := ⟨"/health", .get, .finite 5, .finite 2, [200]⟩
  waitPolicy := .wait
  routing := .queued
  concurrency := 1
  queueTimeout := .finite 0
  session := ⟨-1, .parallel, .finite 120, .finite 300, true⟩
  sessionIdBodyFields := []

/-- The app with the one endpoint. -/
def oneEndpoint : Topology.RelayApp where
  config :=
    { proxy := ⟨"0.0.0.0", 8000, .allow, 0, ["x-session-id"], .finite 60, ⟨"./relay.db", 90⟩⟩
      servers := [devbox]
      endpoints := [llm]
      clients := [] }
  servers := .insert .empty "devbox" ⟨devbox, ["llm"]⟩
  providers := []
  pollers := .empty
  endpoints := .insert .empty "llm" ⟨llm, devbox⟩
  catchAll := some ⟨llm, devbox⟩

/-- A platform without JSON and cron. -/
def barePlatform : Platform where
  loads := fun _ => .error .valueError
  repr := fun _ => ""
  lastFireBefore := fun _ t => t

/-- A GET of a path. -/
def getOf (path : String) : Inbound where
  method := "GET"
  path := path
  headers := [("user-agent", "curl")]
  query := []
  clientHost := some "10.0.0.1"

/-- A request to the endpoint, one without an endpoint of its own, and an order to power off. -/
def threeRequests : List Op :=
  [.http (getOf "v1/models") 1 1, .http (getOf "favicon.ico") 2 2,
    .power (some (.object [("server", .string "devbox"), ("action", .string "off")])) 3,
    .resume 1 { now := 4 } (some []), .resume 0 { now := 5 } (some [])]

theorem run_threeRequests : ∃ A₀ A,
    App.start barePlatform oneEndpoint (fun _ => {}) false 0 = some A₀ ∧
    Run (Steps (App.step barePlatform) Any) A₀ threeRequests A ∧
    (A.systems.length, A.callsFor barePlatform 0,
        (A.taskAt ⟨0, 0⟩ 0).map fun task => (task.request.kind, task.request.path)) =
      (1, [.onRoutedTraffic, .onRoutedTraffic, .powerOff], some (.catchAll, "/favicon.ico")) := by
  have hview : ((App.start barePlatform oneEndpoint (fun _ => {}) false 0).bind fun A₀ =>
      (exec (App.step barePlatform) A₀ threeRequests).map fun A =>
        (A.systems.length, A.callsFor barePlatform 0,
          (A.taskAt ⟨0, 0⟩ 0).map fun task => (task.request.kind, task.request.path))) =
      some (1, [.onRoutedTraffic, .onRoutedTraffic, .powerOff],
        some (.catchAll, "/favicon.ico")) := by
    decide +kernel
  obtain ⟨A₀, hstart, hmap⟩ := Option.bind_eq_some_iff.mp hview
  obtain ⟨A, hexec, hview⟩ := Option.map_eq_some_iff.mp hmap
  exact ⟨A₀, A, hstart, run_any_of_exec hexec, hview⟩

/-! ### What servers and endpoints see -/

/-- What a server of the app has done since the start. -/
theorem component_of_run (hstart : App.start platform tables rows degraded now = some A₀)
    (hrun : Run (Steps (App.step platform) Any) A₀ ops A) {n : Nat} {S : System}
    (hS : A.systems[n]? = some S) :
    ∃ (server : Topology.ServerRuntime) (S₀ : System) (labels : List System.Op),
      tables.servers.values[n]? = some server ∧
      startServer platform tables rows degraded now server = some S₀ ∧
      exec System.step S₀ labels = some S ∧ (∀ op ∈ labels, isRestart (n, op) = false) ∧
      outsideCalls labels = A.callsFor platform n := by
  obtain ⟨hsystems, htables, hempty, -, -⟩ := start_eq hstart
  obtain ⟨-, labels, hdid⟩ := did_of_run hempty hrun
  -- the server was there from the start
  have hn : n < A₀.systems.length := by
    rw [← length_exec_stepAt hdid.systems]
    exact (List.getElem?_eq_some_iff.mp hS).1
  obtain ⟨S', hS', hexec⟩ := exec_stepAt_component hdid.systems (List.getElem?_eq_getElem hn)
  obtain rfl : S' = S := Option.some.inj (hS'.symm.trans hS)
  have hlt : n < tables.servers.values.length := length_of_mapM hsystems ▸ hn
  obtain ⟨S₀, hS₀, hserver⟩ := exists_getElem?_of_mapM hsystems (List.getElem?_eq_getElem hlt)
  rw [List.getElem?_eq_getElem hn] at hS₀
  obtain rfl := Option.some.inj hS₀
  refine ⟨_, _, labelsAt n labels, List.getElem?_eq_getElem hlt, hserver, hexec,
    fun op hop => ?_, ?_⟩
  · obtain ⟨⟨m, op'⟩, hlabel, hop'⟩ := List.mem_filterMap.mp hop
    obtain ⟨hm, heq⟩ := Option.ite_none_right_eq_some.mp hop'
    obtain rfl : m = n := hm
    obtain rfl : op' = op := Option.some.inj heq
    exact hdid.noRestart _ hlabel
  · rw [outsideCalls_labelsAt, ← hdid.calls, callsFor, List.filterMap_filterMap, hdid.tables]
    refine List.filterMap_congr fun handler _ => ?_
    cases handler.asked.call? platform A₀.tables <;> rfl

/-- **Seen from a server.** Every server of the app, with its endpoints, has made a run of
`System`, with the settings that the configuration has for it and for the endpoints in its list:
it has been started and restored from its row once, and the calls of its methods from outside are
those that the requests ask for, one for each such request and in their order. -/
theorem seen_from_server (hstart : App.start platform tables rows degraded now = some A₀)
    (hrun : Run (Steps (App.step platform) Any) A₀ ops A) {n : Nat} {S : System}
    (hS : A.systems[n]? = some S) :
    ∃ (server : Topology.ServerRuntime) (config : ServerConfig) (cfgs : List EndpointConfig)
      (labels : List System.Op),
      tables.servers.values[n]? = some server ∧
      server.config.settings platform = some config ∧
      server.endpoints.mapM (fun name =>
        (tables.endpoints.get? name).bind fun e => e.config.settings) = some cfgs ∧
      Run (Steps System.step Any) (System.init config (rows server.config.name) now cfgs)
        (.server (.restart degraded now) :: labels) S ∧
      (∀ op ∈ labels, isRestart (n, op) = false) ∧
      outsideCalls labels = A.callsFor platform n := by
  obtain ⟨server, S₀, labels, hn, hserver, hexec, hlabels, hcalls⟩ :=
    component_of_run hstart hrun hS
  obtain ⟨config, cfgs, hconfig, hcfgs, hrestart⟩ := startServer_eq hserver
  exact ⟨server, config, cfgs, labels, hn, hconfig, hcfgs,
    .head ⟨hrestart, trivial⟩ (run_any_of_exec hexec), hlabels, hcalls⟩

theorem seen_from_server_threeRequests :
    ∃ (S : System) (config : ServerConfig) (cfgs : List EndpointConfig) (labels : List System.Op),
      devbox.settings barePlatform = some config ∧
      Run (Steps System.step Any) (System.init config {} 0 cfgs)
        (.server (.restart false 0) :: labels) S ∧
      outsideCalls labels = [.onRoutedTraffic, .onRoutedTraffic, .powerOff] := by
  obtain ⟨A₀, A, hstart, hrun, hview⟩ := run_threeRequests
  simp only [Prod.mk.injEq] at hview
  have hS : A.systems[0]? = some (A.systems.get ⟨0, by omega⟩) :=
    List.getElem?_eq_getElem (by omega)
  obtain ⟨server, config, cfgs, labels, hserver, hconfig, -, hlabels, -, hcalls⟩ :=
    seen_from_server hstart hrun hS
  obtain rfl : (⟨devbox, ["llm"]⟩ : Topology.ServerRuntime) = server := Option.some.inj hserver
  exact ⟨_, config, cfgs, labels, hconfig, hlabels, hcalls.trans hview.2.1⟩

/-- **Admissions are earned.** However requests, WebSockets, orders of the monitor and everything
that servers and endpoints do on their own interleave: every admission at an endpoint belongs to
exactly one handler, that of a request which leads to this endpoint, with the kind and the
arguments that the request and the body its handler read give it; and every handler that has handed
its request on has its admission. -/
theorem admissions_earned (hstart : App.start platform tables rows degraded now = some A₀)
    (hrun : Run (Steps (App.step platform) Any) A₀ ops A) :
    (∀ p t task, A.taskAt p t = some task →
      ∃! i : Nat, ∃ handler, A.handlers[i]? = some handler ∧
        AdmittedFor platform A₀ ops A p t task i handler) ∧
    ∀ (i : Nat) (handler : Handler) (e : Topology.EndpointRuntime) (t : Nat) (request : Request)
      (body : List UInt8),
      A.handlers[i]? = some handler →
      handler.phase = .admitted e t request body →
      ∃ task, A.taskAt (place A.tables e) t = some task ∧ task.request = request := by
  obtain ⟨hmatched, hright⟩ := matched_of_run hstart hrun
  have hread := readBody_of_run (start_eq hstart).2.2.1 hrun
  have hadmitted : ∀ {i : Nat} {handler : Handler} {e : Topology.EndpointRuntime} {t : Nat}
      {request : Request} {body : List UInt8}, A.handlers[i]? = some handler →
      handler.phase = .admitted e t request body →
      A.admissionOf i = some (place A.tables e, t, request) := by
    intro i handler e t request body hi hphase
    rw [admissionOf, hi, Option.bind_some, hphase]
    rfl
  constructor
  · intro p t task htask
    have hrequest : (requestsIn A.systems p)[t]? = some task.request := by
      rw [← request_taskAt, htask, Option.map_some]
    obtain ⟨i, request, hi⟩ := hmatched.every p t (List.getElem?_eq_some_iff.mp hrequest).1
    obtain rfl : task.request = request :=
      Option.some.inj (hrequest.symm.trans (hmatched.taken i p t request hi))
    obtain ⟨handler, hhandler, hphase⟩ := Option.bind_eq_some_iff.mp hi
    refine ⟨i, ⟨handler, hhandler, ?_⟩, ?_⟩
    · have hthere := hright handler (List.mem_of_getElem? hhandler)
      unfold HandlerPhase.admission? at hphase
      split at hphase
      · rename_i e t' request' body hgiven
        obtain ⟨hp, ht, hr⟩ : place A.tables e = p ∧ t' = t ∧ request' = task.request := by
          simpa using hphase
        rw [hgiven] at hthere
        obtain ⟨kind, inbound, hdest, hinbound, heq⟩ := hthere
        refine ⟨e, kind, inbound, body, ht ▸ hr ▸ hgiven, hp, hinbound, hdest,
          fun recordAt => ?_, hr ▸ heq⟩
        exact hread i handler e t' request' body inbound recordAt hhandler hgiven
      · exact absurd hphase (by simp)
    · rintro j ⟨other, hother, ⟨e, _, _, _, hphase', hp, -⟩⟩
      exact hmatched.unique j i p t _ _ (hp ▸ hadmitted hother hphase') hi
  · intro i handler e t request body hi hphase
    have htaken := hmatched.taken i _ t request (hadmitted hi hphase)
    rw [← request_taskAt] at htaken
    exact Option.map_eq_some_iff.mp htaken

theorem admissions_earned_threeRequests :
    ∃ (A₀ A : App) (task : Task), A.taskAt ⟨0, 0⟩ 0 = some task ∧
      task.request.kind = .catchAll ∧
      ∃! i : Nat, ∃ handler, A.handlers[i]? = some handler ∧
        AdmittedFor barePlatform A₀ threeRequests A ⟨0, 0⟩ 0 task i handler := by
  obtain ⟨A₀, A, hstart, hrun, hview⟩ := run_threeRequests
  simp only [Prod.mk.injEq] at hview
  obtain ⟨task, htask, hkind⟩ := Option.map_eq_some_iff.mp hview.2.2
  obtain ⟨hearned, -⟩ := admissions_earned hstart hrun
  exact ⟨A₀, A, task, htask, (Prod.mk.inj hkind).1, hearned _ _ _ htask⟩

end App

end Relay
