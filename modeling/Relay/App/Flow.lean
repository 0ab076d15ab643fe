import Relay.App.Basic

/-!
# Relay.App.Flow

**The app is its servers, and they are told only what was asked for.** Every step of the app is a
sequence of steps of its servers and their endpoints (`Acts`), so that each server makes a run of
its own, as `System` describes it. `Effect` says what of such a sequence comes from handlers:
which methods of servers are called for a request, and which admission begins for it.
`handlers_step` says what a step does to the handlers.
-/

namespace Relay

open Runs

/-! ### What a request asks for -/

namespace Asked

variable (platform : Platform) (tables : Topology.RelayApp)

/-- The request or WebSocket of `proxy` and `ws_proxy`. -/
def inbound? : Asked → Option Inbound
  | .http inbound _ | .webSocket inbound => some inbound
  | _ => none

/-- The endpoint a request leads to, and the kind of its admission there. -/
def destination? : Asked → Option (Topology.EndpointRuntime × RequestKind)
  | .http inbound _ =>
      match target tables inbound.fullPath with
      | .endpoint e passthrough => some (e, if passthrough then .catchAll else .http)
      | .blocked | .noCatchAll => none
  | .webSocket inbound =>
      match target tables inbound.fullPath with
      | .endpoint e passthrough => some (e, if passthrough then .catchAllWebSocket else .webSocket)
      | .blocked | .noCatchAll => none
  | _ => none

/-- The method of a server that is called for a request. -/
def call? : Asked → Option (Nat × Call)
  | .shutdown body =>
      match readShutdown platform.repr tables.servers body with
      | .ok (server, enabled) =>
          some (tables.servers.keys.idxOf server, .setShutdownOverride enabled)
      | .error _ => none
  | .power body =>
      match readPower platform.repr tables.servers body with
      | .ok (server, on) =>
          some (tables.servers.keys.idxOf server, if on then .powerOn else .powerOff)
      | .error _ => none
  | asked =>
      (asked.destination? tables).map fun found => ((place tables found.1).server, .onRoutedTraffic)

end Asked

/-- A step of a server or of one of its endpoints. -/
abbrev Label := Nat × System.Op

/-- The method calls that handlers alone make. -/
def handlerCall? : Label → Option (Nat × Call)
  | (n, .server (.call call _)) =>
      match call with
      | .onRoutedTraffic | .powerOn | .powerOff | .setShutdownOverride _ => some (n, call)
      | _ => none
  | _ => none

/-- The admissions that begin at a place. -/
def arrivalsAt (p : Place) (labels : List Label) : List Request :=
  labels.filterMap fun
    | (n, .endpoint (j, .arrive request)) =>
        if n = p.server ∧ j = p.endpoint then some request else none
    | _ => none

/-- The label is a restart. -/
def isRestart : Label → Bool
  | (_, .server (.restart _ _)) => true
  | _ => false

/-- The requests that have been admitted at a place, in order. -/
def requestsIn (systems : List System) (p : Place) : List Request :=
  ((systems[p.server]?).bind (·.endpoints[p.endpoint]?)).elim [] fun E => E.tasks.map Task.request

/-! ### Steps of an endpoint, a server, the servers -/

theorem Endpoint.requests_step {E E' : Endpoint} {op : Endpoint.Op} (h : E.step op = some E') :
    E'.tasks.map Task.request = E.tasks.map Task.request ++
      match op with
      | .arrive request => [request]
      | _ => [] := by
  cases op with
  | arrive request =>
      obtain rfl := Option.some.inj h
      simp
  | resume i input =>
      simp only [step] at h
      split at h
      · exact absurd h (by simp)
      · rename_i t ht
        obtain ⟨result, -, rfl⟩ := Option.map_eq_some_iff.mp h
        have hset : E.tasks.set i t = E.tasks := by
          obtain ⟨hlt, rfl⟩ := List.getElem?_eq_some_iff.mp ht
          exact List.set_getElem_self hlt
        calc (E.tasks.set i (t.moveTo result.2)).map Task.request
            = (E.tasks.set i t).map Task.request := by
              rw [List.map_set, List.map_set]
              rfl
          _ = E.tasks.map Task.request ++ [] := by rw [hset, List.append_nil]
  | manage op =>
      obtain ⟨-, hmap⟩ := Option.ite_none_right_eq_some.mp h
      obtain ⟨queue, -, rfl⟩ := Option.map_eq_some_iff.mp hmap
      simp

theorem requestsIn_step {systems systems' : List System} {label : Label}
    (h : stepAt System.step systems label = some systems') (hlabel : isRestart label = false)
    (p : Place) : requestsIn systems' p = requestsIn systems p ++ arrivalsAt p [label] := by
  obtain ⟨n, op⟩ := label
  obtain ⟨S, S', hS, hstep, rfl⟩ := stepAt_eq_some h
  have hlt := (List.getElem?_eq_some_iff.mp hS).1
  have hother : n ≠ p.server → requestsIn (systems.set n S') p = requestsIn systems p := by
    intro hn
    simp only [requestsIn, List.getElem?_set_ne hn]
  have hhere : n = p.server → requestsIn (systems.set n S') p =
      (S'.endpoints[p.endpoint]?).elim [] fun E => E.tasks.map Task.request := by
    intro hn
    simp only [requestsIn, ← hn, List.getElem?_set_self hlt, Option.bind_some]
  have hwas : n = p.server → requestsIn systems p =
      (S.endpoints[p.endpoint]?).elim [] fun E => E.tasks.map Task.request := by
    intro hn
    simp only [requestsIn, ← hn, hS, Option.bind_some]
  rcases System.step_cases hstep with ⟨sop, rfl, -, hendpoints⟩ | ⟨⟨j, eop⟩, rfl, hendpoint, -⟩
  · -- a server's step leaves the endpoints alone, but for a restart
    have hsame : S'.endpoints = S.endpoints := by
      cases sop with
      | restart _ _ => exact absurd hlabel (by simp [isRestart])
      | _ => exact hendpoints
    have hnone : arrivalsAt p [(n, .server sop)] = [] := rfl
    rw [hnone, List.append_nil]
    by_cases hn : n = p.server
    · rw [hhere hn, hwas hn, hsame]
    · exact hother hn
  · obtain ⟨E, E', hE, hE', hset⟩ := stepAt_eq_some hendpoint
    have hjlt := (List.getElem?_eq_some_iff.mp hE).1
    by_cases hn : n = p.server
    · rw [hhere hn, hwas hn, hset]
      by_cases hj : j = p.endpoint
      · rw [← hj, List.getElem?_set_self hjlt, hE, Option.elim_some, Option.elim_some,
          Endpoint.requests_step hE']
        cases eop <;> simp [arrivalsAt, hn, hj]
      · rw [List.getElem?_set_ne hj]
        cases eop <;> simp [arrivalsAt, hj]
    · rw [hother hn]
      cases eop <;> simp [arrivalsAt, hn]

theorem requestsIn_exec {systems systems' : List System} {labels : List Label}
    (h : exec (stepAt System.step) systems labels = some systems')
    (hlabels : ∀ label ∈ labels, isRestart label = false) (p : Place) :
    requestsIn systems' p = requestsIn systems p ++ arrivalsAt p labels := by
  induction labels generalizing systems with
  | nil =>
      obtain rfl : systems = systems' := Option.some.inj h
      exact (List.append_nil _).symm
  | cons label labels ih =>
      obtain ⟨middle, hlabel, hrest⟩ := Option.bind_eq_some_iff.mp h
      rw [ih hrest fun l hl => hlabels l (List.mem_cons_of_mem _ hl),
        requestsIn_step hlabel (hlabels label List.mem_cons_self) p, List.append_assoc,
        arrivalsAt, arrivalsAt, ← List.filterMap_append]
      rfl

/-! ### Steps of the app -/

/-- The admission a handler is suspended at: its place, its task, and its request. -/
def HandlerPhase.admission? (tables : Topology.RelayApp) :
    HandlerPhase → Option (Place × Nat × Request)
  | .admitted e task request _ => some (place tables e, task, request)
  | _ => none

/-- A handler is where its request leads. -/
def HandlerPhase.Right (platform : Platform) (tables : Topology.RelayApp) (asked : Asked) :
    HandlerPhase → Prop
  | .adopting e kind _ | .reading e kind => asked.destination? tables = some (e, kind)
  | .admitted e _ request body => ∃ kind inbound, asked.destination? tables = some (e, kind) ∧
      asked.inbound? = some inbound ∧ request = admission platform tables e kind inbound body
  | .ordering .. | .answered _ => True

/-- What a handler is handed when it is resumed with a body: only one that awaits its body takes
it. -/
def HandlerPhase.given (body : Option (List UInt8)) : HandlerPhase → Option (List UInt8)
  | .reading _ _ => body
  | _ => none

/-- The admission of an HTTP request has the body that was read. -/
def HandlerPhase.HasRead (given : Option (List UInt8)) (asked : Asked) : HandlerPhase → Prop
  | .admitted _ _ _ body => ∀ inbound recordAt, asked = .http inbound recordAt → given = some body
  | _ => True

theorem HandlerPhase.HasRead.of_ne {given : Option (List UInt8)} {asked : Asked}
    {phase : HandlerPhase} (h : ∀ inbound recordAt, asked ≠ .http inbound recordAt) :
    phase.HasRead given asked := by
  cases phase with
  | admitted e task request body => exact fun inbound recordAt hasked => absurd hasked (h _ _)
  | _ => trivial

namespace App

/-- The admission a handler of the app is suspended at. -/
def admissionOf (A : App) (i : Nat) : Option (Place × Nat × Request) :=
  (A.handlers[i]?).bind fun handler => handler.phase.admission? A.tables

/-- The app takes some steps of its servers; the handlers stay as they are. -/
structure Acts (A A' : App) (labels : List Label) : Prop where
  systems : exec (stepAt System.step) A.systems labels = some A'.systems
  tables : A'.tables = A.tables
  handlers : A'.handlers = A.handlers
  noRestart : ∀ label ∈ labels, isRestart label = false

/-- With some steps of the servers, a handler gets to a phase. Only one that gets to an admission
makes a request arrive. -/
structure Goes (platform : Platform) (asked : Asked) (A A' : App) (labels : List Label)
    (phase : HandlerPhase) : Prop where
  acts : Acts A A' labels
  right : phase.Right platform A.tables asked
  admission : ((∀ p, arrivalsAt p labels = []) ∧ phase.admission? A.tables = none) ∨
    ∃ p request, (∀ p', arrivalsAt p' labels = if p' = p then [request] else []) ∧
      phase.admission? A.tables = some (p, (requestsIn A.systems p).length, request)

/-- What a step of the app is, in steps of its servers. -/
structure Effect (platform : Platform) (A A' : App) (labels : List Label) : Prop where
  systems : exec (stepAt System.step) A.systems labels = some A'.systems
  tables : A'.tables = A.tables
  noRestart : ∀ label ∈ labels, isRestart label = false
  /-- Handlers call the methods that their requests ask for. -/
  calls : A'.handlers.filterMap (fun handler => handler.asked.call? platform A.tables) =
    A.handlers.filterMap (fun handler => handler.asked.call? platform A.tables) ++
      labels.filterMap handlerCall?
  right : (∀ handler ∈ A.handlers, handler.phase.Right platform A.tables handler.asked) →
    ∀ handler ∈ A'.handlers, handler.phase.Right platform A.tables handler.asked
  /-- A request arrives with a handler that gets to its admission. -/
  admissions : ((∀ p, arrivalsAt p labels = []) ∧ ∀ i, A'.admissionOf i = A.admissionOf i) ∨
    ∃ i p request, (∀ p', arrivalsAt p' labels = if p' = p then [request] else []) ∧
      A.admissionOf i = none ∧
      ∀ j, A'.admissionOf j =
        if j = i then some (p, (requestsIn A.systems p).length, request) else A.admissionOf j

variable {platform : Platform} {A A' A₁ : App} {labels labels' : List Label} {asked : Asked}
  {phase : HandlerPhase} {e : Topology.EndpointRuntime} {kind : RequestKind}

theorem Acts.refl (hsystems : A'.systems = A.systems) (htables : A'.tables = A.tables)
    (hhandlers : A'.handlers = A.handlers) : Acts A A' [] where
  systems := congrArg some hsystems.symm
  tables := htables
  handlers := hhandlers
  noRestart := fun _ h => absurd h List.not_mem_nil

theorem Acts.trans (h : Acts A A₁ labels) (h' : Acts A₁ A' labels') :
    Acts A A' (labels ++ labels') where
  systems := by
    rw [exec_append, h.systems]
    exact h'.systems
  tables := h'.tables.trans h.tables
  handlers := h'.handlers.trans h.handlers
  noRestart := fun label hlabel =>
    (List.mem_append.mp hlabel).elim (h.noRestart label) (h'.noRestart label)

theorem Acts.requests (h : Acts A A' labels) (hnone : ∀ p, arrivalsAt p labels = []) (p : Place) :
    requestsIn A'.systems p = requestsIn A.systems p := by
  rw [requestsIn_exec h.systems h.noRestart, hnone, List.append_nil]

theorem Acts.of_act {n : Nat} {op : System.Op} (h : A.act n op = some A')
    (hop : isRestart (n, op) = false) : Acts A A' [(n, op)] := by
  obtain ⟨systems, hsystems, rfl⟩ := Option.map_eq_some_iff.mp h
  refine ⟨?_, rfl, rfl, fun label hlabel => ?_⟩
  · exact Option.bind_eq_some_iff.mpr ⟨systems, hsystems, rfl⟩
  · rwa [List.mem_singleton.mp hlabel]

theorem Goes.of_acts (h : Acts A A' labels) (hright : phase.Right platform A.tables asked)
    (hnone : ∀ p, arrivalsAt p labels = []) (hphase : phase.admission? A.tables = none) :
    Goes platform asked A A' labels phase :=
  ⟨h, hright, Or.inl ⟨hnone, hphase⟩⟩

/-- A handler that goes on after steps in which no request arrives. -/
theorem Goes.after (h : Acts A A₁ labels) (hnone : ∀ p, arrivalsAt p labels = [])
    (hgoes : Goes platform asked A₁ A' labels' phase) :
    Goes platform asked A A' (labels ++ labels') phase := by
  have harrivals : ∀ p, arrivalsAt p (labels ++ labels') = arrivalsAt p labels' := by
    intro p
    rw [arrivalsAt, List.filterMap_append, ← arrivalsAt, hnone, List.nil_append, ← arrivalsAt]
  refine ⟨h.trans hgoes.acts, h.tables ▸ hgoes.right, ?_⟩
  rcases hgoes.admission with ⟨hnone', hphase⟩ | ⟨p, request, hone, hphase⟩
  · exact Or.inl ⟨fun p => (harrivals p).trans (hnone' p), h.tables ▸ hphase⟩
  · refine Or.inr ⟨p, request, fun p' => (harrivals p').trans (hone p'), ?_⟩
    rw [← h.requests hnone p, ← h.tables]
    exact hphase

theorem Effect.of_acts (h : Acts A A' labels) (hnone : ∀ p, arrivalsAt p labels = [])
    (hcalls : labels.filterMap handlerCall? = []) : Effect platform A A' labels where
  systems := h.systems
  tables := h.tables
  noRestart := h.noRestart
  calls := by rw [h.handlers, hcalls, List.append_nil]
  right := fun hright => h.handlers ▸ hright
  admissions := Or.inl ⟨hnone, fun i => by simp only [admissionOf, h.handlers, h.tables]⟩

/-- A handler starts. -/
theorem Goes.enter (h : Goes platform asked A A' labels phase)
    (hcalls : labels.filterMap handlerCall? = (asked.call? platform A.tables).toList) :
    Effect platform A (A'.enter asked phase) labels where
  systems := h.acts.systems
  tables := h.acts.tables
  noRestart := h.acts.noRestart
  calls := by
    rw [filterMap_asked_enter, h.acts.handlers, hcalls]
  right := by
    intro hright handler hhandler
    rw [App.enter, h.acts.handlers] at hhandler
    rcases List.mem_append.mp hhandler with hold | hnew
    · exact hright handler hold
    · rw [List.mem_singleton.mp hnew]
      exact h.right
  admissions := by
    have hadmission : ∀ j, (A'.enter asked phase).admissionOf j =
        if j = A.handlers.length then phase.admission? A.tables else A.admissionOf j := by
      intro j
      have htables : (A'.enter asked phase).tables = A.tables := h.acts.tables
      rw [admissionOf, htables, bind_phase_enter, h.acts.handlers]
      rfl
    have hnew : A.admissionOf A.handlers.length = none := by simp [admissionOf]
    rcases h.admission with ⟨hnone, hphase⟩ | ⟨p, request, hone, hphase⟩
    · refine Or.inl ⟨hnone, fun j => ?_⟩
      rw [hadmission, hphase]
      split
      · rename_i hj
        rw [hj, hnew]
      · rfl
    · exact Or.inr ⟨A.handlers.length, p, request, hone, hnew, hphase ▸ hadmission⟩

/-- A handler goes on. -/
theorem Goes.settle {i : Nat} {handler : Handler}
    (h : Goes platform handler.asked A A' labels phase) (hi : A.handlers[i]? = some handler)
    (hwas : handler.phase.admission? A.tables = none)
    (hcalls : labels.filterMap handlerCall? = []) :
    Effect platform A (A'.settle i handler phase) labels where
  systems := h.acts.systems
  tables := h.acts.tables
  noRestart := h.acts.noRestart
  calls := by
    rw [filterMap_asked_settle _ (h.acts.handlers ▸ hi), h.acts.handlers, hcalls, List.append_nil]
  right := by
    intro hright other hother
    rw [App.settle, h.acts.handlers] at hother
    rcases List.mem_or_eq_of_mem_set hother with hold | rfl
    · exact hright other hold
    · exact h.right
  admissions := by
    have hadmission : ∀ j, (A'.settle i handler phase).admissionOf j =
        if j = i then phase.admission? A.tables else A.admissionOf j := by
      intro j
      have htables : (A'.settle i handler phase).tables = A.tables := h.acts.tables
      rw [admissionOf, htables, bind_phase_settle _ (h.acts.handlers ▸ hi), h.acts.handlers]
      rfl
    have hold : A.admissionOf i = none := by rw [admissionOf, hi, Option.bind_some, hwas]
    rcases h.admission with ⟨hnone, hphase⟩ | ⟨p, request, hone, hphase⟩
    · refine Or.inl ⟨hnone, fun j => ?_⟩
      rw [hadmission, hphase]
      split
      · rename_i hj
        rw [hj, hold]
      · rfl
    · exact Or.inr ⟨i, p, request, hone, hold, hphase ▸ hadmission⟩

/-! ### What the handlers do -/

theorem callServer_acts {n c : Nat} {call : Call} (h : A.callServer n call = some (c, A')) :
    Acts A A' [(n, .server (.call call A.clock))] := by
  obtain ⟨S, -, -, hact⟩ := callServer_eq_some h
  exact .of_act hact rfl

theorem arrivalsAt_arrive (p p' : Place) (request : Request) :
    arrivalsAt p' [(p.server, .endpoint (p.endpoint, .arrive request))] =
      if p' = p then [request] else [] := by
  simp only [arrivalsAt, List.filterMap_cons, List.filterMap_nil]
  by_cases hp : p' = p
  · simp [hp]
  · have hne : ¬ (p.server = p'.server ∧ p.endpoint = p'.endpoint) := by
      rintro ⟨hserver, hendpoint⟩
      exact hp (by cases p; cases p'; simp_all)
    simp [hp, hne]

theorem admit_goes {inbound : Inbound} {body : List UInt8}
    (h : A.admitRequest platform e kind inbound body = some (phase, A'))
    (hdest : asked.destination? A.tables = some (e, kind))
    (hinbound : asked.inbound? = some inbound) :
    ∃ labels, Goes platform asked A A' labels phase ∧ labels.filterMap handlerCall? = [] := by
  obtain ⟨E, hE, rfl, hact⟩ := admitRequest_eq_some h
  refine ⟨_, ⟨.of_act hact rfl, ⟨kind, inbound, hdest, hinbound, rfl⟩,
    Or.inr ⟨place A.tables e, admission platform A.tables e kind inbound body, ?_, ?_⟩⟩, rfl⟩
  · exact fun p' => arrivalsAt_arrive _ _ _
  · have hlength : (requestsIn A.systems (place A.tables e)).length = E.tasks.length := by
      unfold endpointAt at hE
      rw [requestsIn, hE, Option.elim_some, List.length_map]
    rw [hlength]
    rfl

theorem routed_goes {call : Nat} (h : A.routed platform asked e kind call = some (phase, A'))
    (hdest : asked.destination? A.tables = some (e, kind)) :
    ∃ labels, Goes platform asked A A' labels phase ∧ labels.filterMap handlerCall? = [] := by
  have hstay : ∀ phase : HandlerPhase, phase.Right platform A.tables asked →
      phase.admission? A.tables = none → Goes platform asked A A [] phase :=
    fun phase hright hphase => .of_acts (.refl rfl rfl rfl) hright (fun _ => rfl) hphase
  unfold routed at h
  split at h
  · split at h
    · exact admit_goes h hdest rfl
    · obtain ⟨rfl, rfl⟩ := Prod.mk.inj (Option.some.inj h)
      exact ⟨[], hstay _ hdest rfl, rfl⟩
  · obtain ⟨rfl, rfl⟩ := Prod.mk.inj (Option.some.inj h)
    exact ⟨[], hstay _ hdest rfl, rfl⟩

theorem routeTo_effect (h : A.routeTo platform asked e kind = some A')
    (hdest : asked.destination? A.tables = some (e, kind))
    (hcall : asked.call? platform A.tables =
      some ((place A.tables e).server, .onRoutedTraffic)) :
    ∃ labels, Effect platform A A' labels := by
  obtain ⟨⟨c, A₁⟩, hcalled, hmap⟩ := Option.bind_eq_some_iff.mp h
  obtain ⟨⟨phase, A₂⟩, hrouted, rfl⟩ := Option.map_eq_some_iff.mp hmap
  have hacts := callServer_acts hcalled
  obtain ⟨labels, hgoes, hnone⟩ := routed_goes hrouted (by rw [hacts.tables, hdest])
  refine ⟨_, (hgoes.after hacts fun _ => rfl).enter ?_⟩
  rw [List.filterMap_append, hnone, List.append_nil, hcall]
  rfl

/-- A request that is answered at once. -/
theorem answered_effect {answer : AppAnswer} (hcall : asked.call? platform A.tables = none) :
    Effect platform A (A.enter asked (.answered answer)) [] := by
  refine Goes.enter (.of_acts (.refl rfl rfl rfl) trivial (fun _ => rfl) rfl) ?_
  rw [hcall]
  rfl

/-- The reading of the clock and the tracker play no part in an effect. -/
theorem Effect.of_same {B : App} (h : Effect platform A A' labels)
    (hsystems : A.systems = B.systems) (htables : A.tables = B.tables)
    (hhandlers : A.handlers = B.handlers) :
    Effect platform B A' labels where
  systems := hsystems ▸ h.systems
  tables := h.tables.trans htables
  noRestart := h.noRestart
  calls := by
    rw [← htables, ← hhandlers]
    exact h.calls
  right := by
    rw [← htables, ← hhandlers]
    exact h.right
  admissions := by
    have hsame : ∀ i, A.admissionOf i = B.admissionOf i := by
      intro i
      rw [admissionOf, admissionOf, htables, hhandlers]
    rcases h.admissions with ⟨hnone, hold⟩ | ⟨i, p, request, hone, hnew, hadmission⟩
    · exact Or.inl ⟨hnone, fun i => (hold i).trans (hsame i)⟩
    · refine Or.inr ⟨i, p, request, hone, (hsame i) ▸ hnew, fun j => ?_⟩
      rw [hadmission, hsystems, hsame]

theorem proxy_effect {inbound : Inbound} {recordAt now : Time}
    (h : A.proxy platform inbound recordAt now = some A') :
    ∃ labels, Effect platform A A' labels := by
  unfold proxy at h
  dsimp only at h
  split at h
  · rename_i htarget
    obtain rfl := Option.some.inj h
    exact ⟨[], (answered_effect (by simp [Asked.call?, Asked.destination?, at', htarget])).of_same
      rfl rfl rfl⟩
  · rename_i htarget
    obtain rfl := Option.some.inj h
    exact ⟨[], (answered_effect (by simp [Asked.call?, Asked.destination?, at', htarget])).of_same
      rfl rfl rfl⟩
  · rename_i htarget
    obtain ⟨labels, heffect⟩ := routeTo_effect h
      (by simp [Asked.destination?, at', recordUnknown, htarget])
      (by simp [Asked.call?, Asked.destination?, at', recordUnknown, htarget])
    exact ⟨labels, heffect.of_same rfl rfl rfl⟩
  · rename_i htarget
    obtain ⟨labels, heffect⟩ := routeTo_effect h
      (by simp [Asked.destination?, at', htarget])
      (by simp [Asked.call?, Asked.destination?, at', htarget])
    exact ⟨labels, heffect.of_same rfl rfl rfl⟩

theorem wsProxy_effect {inbound : Inbound} {now : Time}
    (h : A.wsProxy platform inbound now = some A') : ∃ labels, Effect platform A A' labels := by
  unfold wsProxy at h
  dsimp only at h
  split at h
  · rename_i htarget
    obtain rfl := Option.some.inj h
    exact ⟨[], (answered_effect (by simp [Asked.call?, Asked.destination?, at', htarget])).of_same
      rfl rfl rfl⟩
  · rename_i htarget
    obtain rfl := Option.some.inj h
    exact ⟨[], (answered_effect (by simp [Asked.call?, Asked.destination?, at', htarget])).of_same
      rfl rfl rfl⟩
  · rename_i htarget
    obtain ⟨labels, heffect⟩ := routeTo_effect h
      (by simp [Asked.destination?, at', htarget])
      (by simp [Asked.call?, Asked.destination?, at', htarget])
    exact ⟨labels, heffect.of_same rfl rfl rfl⟩
  · rename_i htarget
    obtain ⟨labels, heffect⟩ := routeTo_effect h
      (by simp [Asked.destination?, at', htarget])
      (by simp [Asked.call?, Asked.destination?, at', htarget])
    exact ⟨labels, heffect.of_same rfl rfl rfl⟩

theorem monitorRelease_effect {body : Option Json} {now : Time}
    (h : A.monitorRelease platform body now = some A') : ∃ labels, Effect platform A A' labels := by
  unfold monitorRelease at h
  dsimp only at h
  split at h
  · obtain rfl := Option.some.inj h
    exact ⟨[], answered_effect rfl⟩
  · split at h
    · obtain rfl := Option.some.inj h
      exact ⟨[], answered_effect rfl⟩
    · obtain ⟨A₁, hact, rfl⟩ := Option.map_eq_some_iff.mp h
      exact ⟨_, Goes.enter (.of_acts (.of_act hact rfl) trivial (fun _ => rfl) rfl) rfl⟩

theorem orderServer_effect {name : String} {order : Order}
    (h : A.orderServer asked name order = some A')
    (hcall : asked.call? platform A.tables =
      some (A.tables.servers.keys.idxOf name, order.call)) :
    ∃ labels, Effect platform A A' labels := by
  obtain ⟨⟨c, A₁⟩, hcalled, rfl⟩ := Option.map_eq_some_iff.mp h
  have hphase : ∀ ok, (A₁.ordered (A.tables.servers.keys.idxOf name) c order ok).Right platform
        A.tables asked ∧
      (A₁.ordered (A.tables.servers.keys.idxOf name) c order ok).admission? A.tables = none := by
    intro ok
    unfold ordered
    split <;> exact ⟨trivial, rfl⟩
  refine ⟨_, Goes.enter (.of_acts (callServer_acts hcalled) (hphase false).1 (fun _ => rfl)
    (hphase false).2) ?_⟩
  rw [hcall]
  cases order with
  | power server on => cases on <;> rfl
  | shutdown enabled => rfl

theorem monitorShutdown_effect {body : Option Json}
    (h : A.monitorShutdown platform body = some A') : ∃ labels, Effect platform A A' labels := by
  unfold monitorShutdown at h
  split at h
  · rename_i hread
    obtain rfl := Option.some.inj h
    exact ⟨[], answered_effect (by simp [Asked.call?, hread])⟩
  · rename_i hread
    exact orderServer_effect h (by simp [Asked.call?, hread, Order.call])

theorem monitorPower_effect {body : Option Json}
    (h : A.monitorPower platform body = some A') : ∃ labels, Effect platform A A' labels := by
  unfold monitorPower at h
  split at h
  · rename_i hread
    obtain rfl := Option.some.inj h
    exact ⟨[], answered_effect (by simp [Asked.call?, hread])⟩
  · rename_i server on hread
    refine orderServer_effect h ?_
    simp only [Asked.call?, hread]
    cases on <;> rfl

theorem monitorTimeout_effect (platform : Platform) (A : App) (body : Option Json) :
    Effect platform A (A.monitorTimeout body) [] := by
  unfold monitorTimeout
  split
  · exact answered_effect rfl
  · exact Goes.enter (.of_acts (.refl rfl rfl rfl) trivial (fun _ => rfl) rfl) rfl

theorem resume_effect {i : Nat} {handler : Handler} {outcome : Outcome}
    {body : Option (List UInt8)} (h : A.resume platform i handler outcome body = some A')
    (hi : A.handlers[i]? = some handler)
    (hright : handler.phase.Right platform A.tables handler.asked) :
    ∃ labels, Effect platform A A' labels := by
  unfold resume at h
  split at h
  · rename_i e kind call hphase
    have hdest : handler.asked.destination? A.tables = some (e, kind) := by
      rw [hphase] at hright
      exact hright
    have hwas : handler.phase.admission? A.tables = none := by rw [hphase]; rfl
    obtain ⟨A₁, hact, hgo⟩ := Option.bind_eq_some_iff.mp h
    have hacts := Acts.of_act hact rfl
    split at hgo
    · obtain rfl := Option.some.inj hgo
      exact ⟨_, Goes.settle (.of_acts hacts trivial (fun _ => rfl) rfl) hi hwas rfl⟩
    · obtain ⟨⟨phase, A₂⟩, hrouted, rfl⟩ := Option.map_eq_some_iff.mp hgo
      obtain ⟨labels, hgoes, hnone⟩ := routed_goes hrouted (by rw [hacts.tables, hdest])
      refine ⟨_, (hgoes.after hacts fun _ => rfl).settle hi hwas ?_⟩
      rw [List.filterMap_append, hnone, List.append_nil]
      rfl
  · rename_i e kind hphase
    have hdest : handler.asked.destination? A.tables = some (e, kind) := by
      rw [hphase] at hright
      exact hright
    have hwas : handler.phase.admission? A.tables = none := by rw [hphase]; rfl
    split at h
    · rename_i inbound recordAt body' hasked
      obtain ⟨⟨phase, A₂⟩, hgiven, rfl⟩ := Option.map_eq_some_iff.mp h
      obtain ⟨labels, hgoes, hnone⟩ := admit_goes hgiven hdest (by rw [hasked]; rfl)
      exact ⟨labels, hgoes.settle hi hwas hnone⟩
    · obtain rfl := Option.some.inj h
      exact ⟨[], Goes.settle (.of_acts (.refl rfl rfl rfl) trivial (fun _ => rfl) rfl) hi hwas rfl⟩
  · rename_i server call order ok hphase
    have hwas : handler.phase.admission? A.tables = none := by rw [hphase]; rfl
    obtain ⟨A₁, hact, rfl⟩ := Option.map_eq_some_iff.mp h
    have hacts := Acts.of_act hact rfl
    split
    · exact ⟨_, Goes.settle (.of_acts hacts trivial (fun _ => rfl) rfl) hi hwas rfl⟩
    · refine ⟨_, Goes.settle (.of_acts hacts ?_ (fun _ => rfl) ?_) hi hwas rfl⟩
      · unfold ordered
        split <;> trivial
      · unfold ordered
        split <;> rfl
  · exact absurd h (by simp)
  · exact absurd h (by simp)

/-- A step of a server on its own calls no method that is called for a request. -/
theorem background_calls {n : Nat} {op : ServerRuntime.Op} {now : Time}
    (h : A.background? n op = some now) :
    isRestart (n, .server op) = false ∧ handlerCall? (n, .server op) = none := by
  cases op with
  | call call now => cases call <;> simp_all [background?, isRestart, handlerCall?]
  | resume i outcome => exact ⟨rfl, rfl⟩
  | commit i => exact ⟨rfl, rfl⟩
  | restart degraded now => exact absurd h (by simp [background?])

/-- **Every step of the app is made of steps of its servers.** -/
theorem step_effect {op : Op} (h : A.step platform op = some A')
    (hright : ∀ handler ∈ A.handlers, handler.phase.Right platform A.tables handler.asked) :
    ∃ labels, Effect platform A A' labels := by
  cases op with
  | http request recordAt now =>
      exact proxy_effect (Option.ite_none_right_eq_some.mp h).2
  | webSocket request now => exact wsProxy_effect (Option.ite_none_right_eq_some.mp h).2
  | release body now =>
      obtain ⟨labels, heffect⟩ := monitorRelease_effect (Option.ite_none_right_eq_some.mp h).2
      exact ⟨labels, heffect.of_same rfl rfl rfl⟩
  | shutdown body now =>
      obtain ⟨labels, heffect⟩ := monitorShutdown_effect (Option.ite_none_right_eq_some.mp h).2
      exact ⟨labels, heffect.of_same rfl rfl rfl⟩
  | power body now =>
      obtain ⟨labels, heffect⟩ := monitorPower_effect (Option.ite_none_right_eq_some.mp h).2
      exact ⟨labels, heffect.of_same rfl rfl rfl⟩
  | timeout body =>
      obtain rfl := Option.some.inj h
      exact ⟨[], monitorTimeout_effect platform A body⟩
  | resume i outcome body =>
      obtain ⟨handler, hi, hresume⟩ :=
        Option.bind_eq_some_iff.mp (Option.ite_none_right_eq_some.mp h).2
      obtain ⟨labels, heffect⟩ := resume_effect hresume hi
        (hright handler (List.mem_of_getElem? hi))
      exact ⟨labels, heffect.of_same rfl rfl rfl⟩
  | server n op =>
      obtain ⟨now, hbackground, hguard⟩ := Option.bind_eq_some_iff.mp h
      obtain ⟨hrestart, hcall⟩ := background_calls hbackground
      have hacts := Acts.of_act (Option.ite_none_right_eq_some.mp hguard).2 hrestart
      exact ⟨_, (Effect.of_acts hacts (fun _ => rfl) (by simp [hcall])).of_same rfl rfl rfl⟩
  | endpoint p op =>
      cases op with
      | arrive request => exact absurd h (by simp [step])
      | resume i input => exact ⟨_, .of_acts (.of_act h rfl) (fun _ => rfl) rfl⟩
      | manage op => exact ⟨_, .of_acts (.of_act h rfl) (fun _ => rfl) rfl⟩
  | prune now =>
      obtain ⟨expiry, -, rfl⟩ :=
        Option.map_eq_some_iff.mp (Option.ite_none_right_eq_some.mp h).2
      exact ⟨[], .of_acts (.refl rfl rfl rfl) (fun _ => rfl) rfl⟩

/-! ### What the steps change -/

theorem act_eq {n : Nat} {op : System.Op} (h : A.act n op = some A') :
    ∃ systems, A' = { A with systems := systems } := by
  obtain ⟨systems, -, rfl⟩ := Option.map_eq_some_iff.mp h
  exact ⟨systems, rfl⟩

theorem callServer_eq {n c : Nat} {call : Call} (h : A.callServer n call = some (c, A')) :
    ∃ systems, A' = { A with systems := systems } := by
  obtain ⟨S, -, -, hact⟩ := callServer_eq_some h
  exact act_eq hact

theorem admit_eq {inbound : Inbound} {body : List UInt8}
    (h : A.admitRequest platform e kind inbound body = some (phase, A')) :
    ∃ systems, A' = { A with systems := systems } := by
  obtain ⟨E, -, -, hact⟩ := admitRequest_eq_some h
  exact act_eq hact

/-- Only a WebSocket gets to its admission without a body. -/
theorem routed_eq {call : Nat}
    (h : A.routed platform asked e kind call = some (phase, A')) :
    (∃ systems, A' = { A with systems := systems }) ∧ phase.HasRead none asked := by
  unfold routed at h
  split at h
  · split at h
    · exact ⟨admit_eq h, .of_ne (by simp)⟩
    · obtain ⟨rfl, rfl⟩ := Prod.mk.inj (Option.some.inj h)
      exact ⟨⟨A.systems, rfl⟩, trivial⟩
  · obtain ⟨rfl, rfl⟩ := Prod.mk.inj (Option.some.inj h)
    exact ⟨⟨A.systems, rfl⟩, trivial⟩

theorem routeTo_eq (h : A.routeTo platform asked e kind = some A') :
    ∃ systems phase, A' = { A with systems := systems }.enter asked phase ∧
      phase.HasRead none asked := by
  obtain ⟨⟨c, A₁⟩, hcalled, hmap⟩ := Option.bind_eq_some_iff.mp h
  obtain ⟨⟨phase, A₂⟩, hrouted, rfl⟩ := Option.map_eq_some_iff.mp hmap
  obtain ⟨systems, rfl⟩ := callServer_eq hcalled
  obtain ⟨⟨systems', hA₂⟩, hread⟩ := routed_eq hrouted
  exact ⟨systems', phase, congrArg (fun B : App => B.enter asked phase) hA₂, hread⟩

theorem orderServer_eq {name : String} {order : Order}
    (h : A.orderServer asked name order = some A') :
    ∃ systems phase, A' = { A with systems := systems }.enter asked phase := by
  obtain ⟨⟨c, A₁⟩, hcalled, rfl⟩ := Option.map_eq_some_iff.mp h
  obtain ⟨systems, hA₁⟩ := callServer_eq hcalled
  exact ⟨systems, _, congrArg (fun B : App => B.enter asked _) hA₁⟩

theorem ordered_hasRead {server call : Nat} {order : Order} {ok : Bool}
    {given : Option (List UInt8)} : (A.ordered server call order ok).HasRead given asked := by
  unfold ordered
  split <;> trivial

/-- A handler that is resumed gets to its admission with what it is handed. -/
theorem resume_eq {i : Nat} {handler : Handler} {outcome : Outcome}
    {body : Option (List UInt8)}
    (h : A.resume platform i handler outcome body = some A') :
    ∃ systems phase, A' = { A with systems := systems }.settle i handler phase ∧
      phase.HasRead (handler.phase.given body) handler.asked := by
  unfold resume at h
  split at h
  · rename_i hphase
    rw [hphase]
    obtain ⟨A₁, hact, hgo⟩ := Option.bind_eq_some_iff.mp h
    obtain ⟨systems, rfl⟩ := act_eq hact
    split at hgo
    · exact ⟨systems, _, (Option.some.inj hgo).symm, trivial⟩
    · obtain ⟨⟨phase, A₂⟩, hrouted, rfl⟩ := Option.map_eq_some_iff.mp hgo
      obtain ⟨⟨systems', hA₂⟩, hread⟩ := routed_eq hrouted
      exact ⟨systems', phase, congrArg (fun B : App => B.settle i handler phase) hA₂, hread⟩
  · rename_i hphase
    rw [hphase]
    split at h
    · obtain ⟨⟨phase, A₂⟩, hgiven, rfl⟩ := Option.map_eq_some_iff.mp h
      obtain ⟨systems, hA₂⟩ := admit_eq hgiven
      obtain ⟨E, -, rfl, -⟩ := admitRequest_eq_some hgiven
      exact ⟨systems, _, congrArg (fun B : App => B.settle i handler _) hA₂, fun _ _ _ => rfl⟩
    · exact ⟨A.systems, _, (Option.some.inj h).symm, trivial⟩
  · obtain ⟨A₁, hact, rfl⟩ := Option.map_eq_some_iff.mp h
    obtain ⟨systems, rfl⟩ := act_eq hact
    split
    · exact ⟨systems, _, rfl, trivial⟩
    · exact ⟨systems, _, rfl, ordered_hasRead⟩
  · exact absurd h (by simp)
  · exact absurd h (by simp)

theorem wsProxy_eq {inbound : Inbound} {now : Time} (h : A.wsProxy platform inbound now = some A') :
    ∃ systems phase,
      A' = ({ A.at' now with systems := systems } : App).enter (.webSocket inbound) phase := by
  unfold wsProxy at h
  dsimp only at h
  split at h
  · exact ⟨A.systems, _, (Option.some.inj h).symm⟩
  · exact ⟨A.systems, _, (Option.some.inj h).symm⟩
  · obtain ⟨systems, phase, hA', -⟩ := routeTo_eq h
    exact ⟨systems, phase, hA'⟩
  · obtain ⟨systems, phase, hA', -⟩ := routeTo_eq h
    exact ⟨systems, phase, hA'⟩

theorem monitorRelease_eq {body : Option Json} {at' : Time}
    (h : A.monitorRelease platform body at' = some A') :
    ∃ systems phase, A' = { A with systems := systems }.enter (.release body) phase := by
  unfold monitorRelease at h
  dsimp only at h
  split at h
  · exact ⟨A.systems, _, (Option.some.inj h).symm⟩
  · split at h
    · exact ⟨A.systems, _, (Option.some.inj h).symm⟩
    · obtain ⟨A₁, hact, rfl⟩ := Option.map_eq_some_iff.mp h
      obtain ⟨systems, rfl⟩ := act_eq hact
      exact ⟨systems, _, rfl⟩

theorem monitorShutdown_eq {body : Option Json} (h : A.monitorShutdown platform body = some A') :
    ∃ systems phase, A' = { A with systems := systems }.enter (.shutdown body) phase := by
  unfold monitorShutdown at h
  split at h
  · exact ⟨A.systems, _, (Option.some.inj h).symm⟩
  · exact orderServer_eq h

theorem monitorPower_eq {body : Option Json} (h : A.monitorPower platform body = some A') :
    ∃ systems phase, A' = { A with systems := systems }.enter (.power body) phase := by
  unfold monitorPower at h
  split at h
  · exact ⟨A.systems, _, (Option.some.inj h).symm⟩
  · exact orderServer_eq h

theorem proxy_handlers {inbound : Inbound} {recordAt now : Time}
    (h : A.proxy platform inbound recordAt now = some A') :
    ∃ asked phase, A'.handlers = A.handlers ++ [⟨asked, phase⟩] ∧
      HandlerPhase.HasRead none asked phase := by
  unfold proxy at h
  dsimp only at h
  split at h
  · obtain rfl := Option.some.inj h
    exact ⟨_, _, rfl, trivial⟩
  · obtain rfl := Option.some.inj h
    exact ⟨_, _, rfl, trivial⟩
  · obtain ⟨systems, phase, rfl, hread⟩ := routeTo_eq h
    exact ⟨_, phase, rfl, hread⟩
  · obtain ⟨systems, phase, rfl, hread⟩ := routeTo_eq h
    exact ⟨_, phase, rfl, hread⟩

/-- What a step does to the handlers: nothing, or one is added, or one goes on. -/
theorem handlers_step {op : Op} (h : A.step platform op = some A') :
    A'.handlers = A.handlers ∨
    (∃ asked phase, A'.handlers = A.handlers ++ [⟨asked, phase⟩] ∧
      HandlerPhase.HasRead none asked phase) ∨
    ∃ i handler outcome body phase, op = .resume i outcome body ∧
      A.handlers[i]? = some handler ∧
      A'.handlers = A.handlers.set i { handler with phase := phase } ∧
      phase.HasRead (handler.phase.given body) handler.asked := by
  cases op with
  | http inbound recordAt now =>
      obtain ⟨asked, phase, hhandlers, hread⟩ :=
        proxy_handlers (Option.ite_none_right_eq_some.mp h).2
      exact Or.inr (Or.inl ⟨asked, phase, hhandlers, hread⟩)
  | webSocket inbound now =>
      obtain ⟨systems, phase, rfl⟩ := wsProxy_eq (Option.ite_none_right_eq_some.mp h).2
      exact Or.inr (Or.inl ⟨_, phase, rfl, .of_ne (by simp)⟩)
  | release body now =>
      obtain ⟨systems, phase, rfl⟩ := monitorRelease_eq (Option.ite_none_right_eq_some.mp h).2
      exact Or.inr (Or.inl ⟨_, phase, rfl, .of_ne (by simp)⟩)
  | shutdown body now =>
      obtain ⟨systems, phase, rfl⟩ := monitorShutdown_eq (Option.ite_none_right_eq_some.mp h).2
      exact Or.inr (Or.inl ⟨_, phase, rfl, .of_ne (by simp)⟩)
  | power body now =>
      obtain ⟨systems, phase, rfl⟩ := monitorPower_eq (Option.ite_none_right_eq_some.mp h).2
      exact Or.inr (Or.inl ⟨_, phase, rfl, .of_ne (by simp)⟩)
  | timeout body =>
      obtain rfl := Option.some.inj h
      unfold monitorTimeout
      split
      · exact Or.inr (Or.inl ⟨_, _, rfl, trivial⟩)
      · exact Or.inr (Or.inl ⟨_, _, rfl, trivial⟩)
  | resume i outcome body =>
      obtain ⟨handler, hi, hresume⟩ :=
        Option.bind_eq_some_iff.mp (Option.ite_none_right_eq_some.mp h).2
      obtain ⟨systems, phase, rfl, hread⟩ := resume_eq hresume
      exact Or.inr (Or.inr ⟨i, handler, outcome, body, phase, rfl, hi, rfl, hread⟩)
  | server n op =>
      obtain ⟨now, -, hguard⟩ := Option.bind_eq_some_iff.mp h
      obtain ⟨systems, rfl⟩ := act_eq (Option.ite_none_right_eq_some.mp hguard).2
      exact Or.inl rfl
  | endpoint p op =>
      cases op with
      | arrive request => exact absurd h (by simp [step])
      | resume i input =>
          obtain ⟨systems, rfl⟩ := act_eq h
          exact Or.inl rfl
      | manage op =>
          obtain ⟨systems, rfl⟩ := act_eq h
          exact Or.inl rfl
  | prune now =>
      obtain ⟨expiry, -, rfl⟩ :=
        Option.map_eq_some_iff.mp (Option.ite_none_right_eq_some.mp h).2
      exact Or.inl rfl

end App

end Relay
