import Relay.Endpoint.Activity
import Relay.Server.Moves

/-!
# Relay.Server.System

A server with its endpoints. Their coroutines interleave freely; the server sees its
endpoints through `has_activity` alone. A routed request is a call of `on_routed_traffic`
and an arrival on an endpoint, with anything in between.
-/

namespace Relay

open Runs

/-- A server and its endpoints. -/
structure System where
  server : ServerRuntime
  endpoints : List Endpoint

namespace System

/-- What happens to a server or on one of its endpoints. -/
inductive Op
  | server (op : ServerRuntime.Op)
  | endpoint (op : Nat × Endpoint.Op)

/-- The proxy has started. -/
def init (config : ServerConfig) (row : ServerRow) (now : Time) (cfgs : List EndpointConfig) :
    System where
  server := .init config row now
  endpoints := cfgs.map Endpoint.init

/-- The endpoints after a step of the server; a restart makes new ones. -/
def endpointsAfter (endpoints : List Endpoint) : ServerRuntime.Op → List Endpoint
  | .restart _ _ => endpoints.map (fun E => .init E.cfg)
  | _ => endpoints

variable (S : System)

/-- `has_activity`. -/
def hasActivity : Bool := ServerRuntime.hasActivity S.endpoints

/-- One step of the server or of an endpoint. -/
def step : Op → Option System
  | .server op =>
      (S.server.step S.hasActivity op).map (fun server =>
        { server := server, endpoints := endpointsAfter S.endpoints op })
  | .endpoint op =>
      (stepAt Endpoint.step S.endpoints op).map (fun endpoints =>
        { S with endpoints := endpoints })

variable {S}

/-- A step of the server, or of an endpoint that leaves the server alone. -/
theorem step_cases {S' : System} {op : Op} (h : S.step op = some S') :
    (∃ sop, op = .server sop ∧ S.server.step S.hasActivity sop = some S'.server ∧
      S'.endpoints = endpointsAfter S.endpoints sop) ∨
    (∃ eop, op = .endpoint eop ∧ stepAt Endpoint.step S.endpoints eop = some S'.endpoints ∧
      S'.server = S.server) := by
  cases op with
  | server sop =>
      obtain ⟨server, hserver, rfl⟩ := Option.map_eq_some_iff.mp h
      exact Or.inl ⟨sop, rfl, hserver, rfl⟩
  | endpoint eop =>
      obtain ⟨endpoints, hendpoints, rfl⟩ := Option.map_eq_some_iff.mp h
      exact Or.inr ⟨eop, rfl, hendpoints, rfl⟩

end System

end Relay
