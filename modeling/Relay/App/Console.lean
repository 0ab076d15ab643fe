import Relay.Clients.Attribution
import Relay.Library.OrdDict

/-!
# Relay.App.Console

What the handlers of the monitor (`relay/main.py`) make of the JSON they are sent: an order, or the
answer that refuses it. `request.json()` that raises is a body of `none`.

JSON is untyped, and the handlers take what Python takes: `bool` is no integer here, any value
that is not false may name a client, and a list cannot be looked up in a dictionary, which raises.
-/

namespace Relay

/-- How a handler of the app answers, or closes a WebSocket it does not route. -/
inductive AppAnswer
  /-- A `JSONResponse` with an `error`. -/
  | error (status : Nat) (message : String)
  /-- The 403 of `unknown_path_policy: block`. -/
  | policyError (message : String)
  | closed (code : Nat)
  /-- An exception leaves the handler. -/
  | raised
  | released
  | shutdownEnabled (enabled : Bool)
  | power (ok : Bool) (server action : String)
  | readTimeout (value : Int)
  deriving DecidableEq, Repr

namespace Json

/-- `bool(value)`. -/
def truthy : Json → Bool
  | null => false
  | bool value => value
  | number text => decide (text ∉ ["0", "0.0", "-0.0"])
  | string text => decide (text ≠ "")
  | array items => !items.isEmpty
  | object entries => !entries.isEmpty

/-- `str(value)`, with `repr` for what a list and a dictionary look like. -/
def text (repr : Json → String) : Json → String
  | null => "None"
  | bool value => if value then "True" else "False"
  | number text | string text => text
  | value => repr value

/-- `data.get(key)` of a dictionary. -/
def getKey (entries : List (String × Json)) (key : String) : Json :=
  ((object entries).member? key).getD .null

end Json

variable {α : Type} (repr : Json → String)

/-- `relay.servers.get(server_name)`, and the answer to a name that is not there. -/
def findServer (servers : OrdDict String α) (name : Json) : Except AppAnswer String :=
  match name with
  | .array _ | .object _ => .error .raised
  | .string text =>
      if text ∈ servers then .ok text
      else .error (.error 404 ("Unknown server '" ++ text ++ "'."))
  | _ => .error (.error 404 ("Unknown server '" ++ name.text repr ++ "'."))

/-- `monitor_release` up to its loop: the client and the session. -/
def readRelease (body : Option Json) : Except AppAnswer (String × String) :=
  match body with
  | some (.object data) =>
      let client := Json.getKey data "client"
      let sessionId := Json.getKey data "session"
      if !client.truthy || !sessionId.truthy then
        .error (.error 400 "Both 'client' and 'session' are required.")
      else .ok (client.text repr, sessionId.text repr)
  | _ => .error (.error 400 "Expected a JSON body \x7bclient, session\x7d.")

/-- `monitor_shutdown` up to its call: the server, and what the switch is set to. -/
def readShutdown (servers : OrdDict String α) (body : Option Json) :
    Except AppAnswer (String × Bool) :=
  match body with
  | none => .error (.error 400 "Expected a JSON body \x7benabled\x7d.")
  | some (.object data) =>
      match Json.getKey data "enabled" with
      | .bool enabled =>
          let server := Json.getKey data "server"
          if server.truthy then (findServer repr servers server).map fun name => (name, enabled)
          else
            -- `next(iter(relay.servers))`
            match servers.keys with
            | [] => .error .raised
            | first :: _ => .ok (first, enabled)
      | _ => .error (.error 400 "Expected a JSON body \x7benabled: true|false\x7d.")
  | some _ => .error (.error 400 "Expected a JSON body \x7benabled: true|false\x7d.")

/-- `monitor_power` up to its call: the server, and whether it is to be on. -/
def readPower (servers : OrdDict String α) (body : Option Json) :
    Except AppAnswer (String × Bool) :=
  match body with
  | some (.object data) =>
      let server := Json.getKey data "server"
      match server.truthy, Json.getKey data "action" with
      | true, .string "on" => (findServer repr servers server).map fun name => (name, true)
      | true, .string "off" => (findServer repr servers server).map fun name => (name, false)
      | _, _ => .error (.error 400 "Expected a JSON body \x7bserver, action: on|off\x7d.")
  | _ => .error (.error 400 "Expected a JSON body \x7bserver, action\x7d.")

/-- `monitor_timeout` up to `set_read_timeout`: the new timeout. -/
def readTimeout (body : Option Json) : Except AppAnswer Int :=
  match body with
  | none => .error (.error 400 "Expected a JSON body \x7bread_timeout\x7d.")
  | some data =>
      let value := match data with
        | .object data => Json.getKey data "read_timeout"
        | _ => .null
      let refusal := AppAnswer.error 400 ("Expected a JSON body \x7bread_timeout: N\x7d with N " ++
        "a non-negative integer (0 = no timeout).")
      match value with
      | .number text =>
          -- what `str` makes of a float is not the text of an integer
          match text.toInt? with
          | some n => if n < 0 then .error refusal else .ok n
          | none => .error refusal
      | _ => .error refusal

variable {repr} {servers : OrdDict String α} {body : Option Json}

theorem findServer_ok {name : Json} {server : String}
    (h : findServer repr servers name = .ok server) : server ∈ servers := by
  unfold findServer at h
  split at h
  · exact absurd h (by simp)
  · exact absurd h (by simp)
  · split at h
    · rename_i hmem
      exact Except.ok.inj h ▸ hmem
    · exact absurd h (by simp)
  · exact absurd h (by simp)

/-- The switch is set on a server that there is. -/
theorem readShutdown_ok {server : String} {enabled : Bool}
    (h : readShutdown repr servers body = .ok (server, enabled)) : server ∈ servers := by
  unfold readShutdown at h
  split at h
  · exact absurd h (by simp)
  · split at h
    · dsimp only at h
      split at h
      · cases hserver : findServer repr servers (Json.getKey _ "server") with
        | error answer =>
            rw [hserver] at h
            exact absurd h (by simp [Except.map])
        | ok name =>
            rw [hserver] at h
            obtain ⟨rfl, -⟩ := Prod.mk.inj (Except.ok.inj h)
            exact findServer_ok hserver
      · split at h
        · exact absurd h (by simp)
        · rename_i hkeys
          obtain ⟨rfl, -⟩ := Prod.mk.inj (Except.ok.inj h)
          exact OrdDict.mem_def.mpr (hkeys ▸ List.mem_cons_self)
    · exact absurd h (by simp)
  · exact absurd h (by simp)

/-- Power is switched on a server that there is. -/
theorem readPower_ok {server : String} {on : Bool}
    (h : readPower repr servers body = .ok (server, on)) : server ∈ servers := by
  have hfound : ∀ (data : List (String × Json)) (on' : Bool),
      (findServer repr servers (Json.getKey data "server")).map (fun name => (name, on')) =
        .ok (server, on) → server ∈ servers := by
    intro data on' hmap
    cases hserver : findServer repr servers (Json.getKey data "server") with
    | error answer =>
        rw [hserver] at hmap
        exact absurd hmap (by simp [Except.map])
    | ok name =>
        rw [hserver] at hmap
        obtain ⟨rfl, -⟩ := Prod.mk.inj (Except.ok.inj hmap)
        exact findServer_ok hserver
  unfold readPower at h
  split at h
  · dsimp only at h
    split at h
    · exact hfound _ _ h
    · exact hfound _ _ h
    · exact absurd h (by simp)
  · exact absurd h (by simp)

end Relay
