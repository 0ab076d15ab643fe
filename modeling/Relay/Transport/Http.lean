import Relay.Queue.Session

/-!
# Relay.Transport.Http

`forward_request` (`relay/transport/http.py`), called with a `release` and a `record`
callback. What the rest of the world does is an input: a `Call` says how reading the
body, the send, the construction of the response and the target's stream turn out, and
the ASGI server is a list of what it does with the body generator.

The callbacks are called from two places, the branch of a failed send and the `finally`
of the generator. `released_once_iff` says for which inputs they add up to one release.
-/

namespace Relay.Http

/-- The bytes of a body or of a chunk. -/
abbrev Bytes := List UInt8

/-- What an operation can raise: an `Exception`, which `except Exception` catches, or
something it does not catch, such as a cancellation. -/
inductive Raised
  | exception (message : String)
  | cancelled
  deriving DecidableEq, Repr

/-- How `response.aiter_raw()` ends after its last chunk. -/
inductive StreamEnd
  | finished
  | readTimeout
  | failed (message : String)
  | cancelled
  deriving DecidableEq, Repr

/-- The target's response, and what becomes of it. -/
structure TargetResponse where
  statusCode : Int
  chunks : List Bytes
  streamEnd : StreamEnd
  /-- `time.monotonic()` when the send returns, and when the generator is done. -/
  activeStart : Time
  activeEnd : Time
  /-- What `StreamingResponse(...)` raises, for instance on encoding the headers. -/
  wrapping : Option Raised
  /-- What `response.aclose()` raises. -/
  closing : Option Raised
  deriving DecidableEq, Repr

/-- The inputs of one call: `body` is the argument, `bodyRead` the outcome of
`request.body()`, and `sent` that of building and sending the request. -/
structure Call where
  body : Option Bytes
  bodyRead : Except Raised Bytes
  sent : Except Raised TargetResponse

/-- A call of one of the two callbacks. -/
inductive Callback
  | release (statusCode : Option Int)
  | record (statusCode : Option Int) (requestBytes responseBytes : Nat) (activeSeconds : Time)
  deriving DecidableEq, Repr

/-- What the generator yields: a chunk of the target, or a notice of its own. -/
inductive Piece
  | raw (chunk : Bytes)
  | notice (text : String)
  deriving DecidableEq, Repr

/-- Where the body generator stands: not started, suspended at the `yield` of a chunk
with `rest` to come, suspended at the `yield` of a notice, or done. -/
inductive Phase
  | fresh
  | atChunk (rest : List Bytes)
  | atNotice
  | done
  deriving DecidableEq, Repr

/-- A running response: the generator, what it yielded and the callbacks called. -/
structure Streaming where
  phase : Phase := .fresh
  responseBytes : Nat := 0
  yielded : List Piece := []
  callbacks : List Callback := []
  deriving DecidableEq, Repr

/-- What the ASGI server does with the body generator. -/
inductive Consume
  | next
  | close
  deriving DecidableEq, Repr

variable (r : TargetResponse) (requestBytes : Nat)

namespace Streaming

/-- The `finally` of the generator. When `aclose` raises, nothing after it runs. -/
def finish (g : Streaming) : Streaming :=
  match r.closing with
  | some _ => { g with phase := .done }
  | none =>
      { g with
        phase := .done
        callbacks := g.callbacks ++
          [.release (some r.statusCode),
            .record (some r.statusCode) requestBytes g.responseBytes
              (r.activeEnd - r.activeStart)] }

/-- The generator runs from the head of its loop to the next suspension. -/
def advance (g : Streaming) : List Bytes → Streaming
  | chunk :: rest =>
      { g with
        phase := .atChunk rest
        responseBytes := g.responseBytes + chunk.length
        yielded := g.yielded ++ [.raw chunk] }
  | [] =>
      match r.streamEnd with
      | .finished | .cancelled => g.finish r requestBytes
      | .readTimeout =>
          { g with
            phase := .atNotice
            yielded := g.yielded ++ [.notice " [Error: Read Timeout] "] }
      | .failed message =>
          { g with
            phase := .atNotice
            yielded := g.yielded ++ [.notice (" [Error: " ++ message ++ "] ")] }

/-- One action of the ASGI server. Closing a generator that was never started runs none
of its body; closing a suspended one raises at its `yield` and runs the `finally`. -/
def consume (g : Streaming) (action : Consume) : Streaming :=
  match action, g.phase with
  | .next, .fresh => g.advance r requestBytes r.chunks
  | .next, .atChunk rest => g.advance r requestBytes rest
  | .next, .atNotice => g.finish r requestBytes
  | .close, .fresh => { g with phase := .done }
  | .close, .atChunk _ => g.finish r requestBytes
  | .close, .atNotice => g.finish r requestBytes
  | _, .done => g

/-- The ASGI server's actions, in order. -/
def serve (g : Streaming) (actions : List Consume) : Streaming :=
  actions.foldl (consume r requestBytes) g

end Streaming

/-- What `forward_request` returns or raises, with the callbacks called before. -/
inductive Reply
  | raised (error : Raised)
  | badGateway (message : String) (callbacks : List Callback)
  | streaming (r : TargetResponse) (requestBytes : Nat)
  deriving DecidableEq, Repr

/-- The body that is forwarded: the argument, or what `request.body()` reads. -/
def Call.requestBody (c : Call) : Except Raised Bytes :=
  match c.body with
  | some body => .ok body
  | none => c.bodyRead

/-- `forward_request`. -/
def forwardRequest (c : Call) : Reply :=
  match c.requestBody with
  | .error error => .raised error
  | .ok body =>
      match c.sent with
      | .error (.exception message) =>
          .badGateway ("Proxy error: " ++ message)
            [.release none, .record none body.length 0 0]
      | .error .cancelled => .raised .cancelled
      | .ok r =>
          match r.wrapping with
          | some error => .raised error
          | none => .streaming r body.length

namespace Reply

/-- The callbacks called by the time the ASGI server has taken its actions. -/
def callbacks (actions : List Consume) : Reply → List Callback
  | .raised _ => []
  | .badGateway _ callbacks => callbacks
  | .streaming r requestBytes => (Streaming.serve r requestBytes {} actions).callbacks

/-- The request is over: it failed, or the body generator is done. -/
def Over (actions : List Consume) : Reply → Prop
  | .raised _ | .badGateway .. => True
  | .streaming r requestBytes => (Streaming.serve r requestBytes {} actions).phase = .done

instance (actions : List Consume) : ∀ reply : Reply, Decidable (reply.Over actions)
  | .raised _ => .isTrue trivial
  | .badGateway .. => .isTrue trivial
  | .streaming r requestBytes =>
      inferInstanceAs (Decidable ((Streaming.serve r requestBytes {} actions).phase = .done))

end Reply

/-- Whether a callback is a release. -/
def Callback.isRelease : Callback → Bool
  | .release _ => true
  | .record .. => false

/-- The number of releases. -/
def releases (callbacks : List Callback) : Nat := callbacks.countP Callback.isRelease

/-- The number of records. -/
def records (callbacks : List Callback) : Nat := callbacks.countP (fun c => !c.isRelease)

/-! ### The generator -/

namespace Streaming

/-- What the generator guarantees once it has started: it calls nothing before it is
done, and then each callback once, unless closing the response raised. -/
structure Started (g : Streaming) : Prop where
  phase_ne : g.phase ≠ .fresh
  callbacks_eq : g.callbacks = if g.phase = .done ∧ r.closing = none then
      [.release (some r.statusCode),
        .record (some r.statusCode) requestBytes g.responseBytes (r.activeEnd - r.activeStart)]
    else []

variable {r requestBytes}

theorem started_finish {g : Streaming} (h : g.callbacks = []) :
    Started r requestBytes (g.finish r requestBytes) := by
  cases hclose : r.closing with
  | some error =>
      have heq : g.finish r requestBytes = { g with phase := .done } := by
        simp only [finish, hclose]
      rw [heq]
      exact ⟨by simp, by simp [h, hclose]⟩
  | none =>
      constructor
      · simp [finish, hclose]
      · simp [finish, hclose, h]

theorem started_advance {g : Streaming} (h : g.callbacks = []) (rest : List Bytes) :
    Started r requestBytes (g.advance r requestBytes rest) := by
  cases rest with
  | cons chunk rest => exact ⟨by simp [advance], by simp [advance, h]⟩
  | nil =>
      cases hend : r.streamEnd with
      | finished =>
          simp only [advance, hend]
          exact started_finish h
      | cancelled =>
          simp only [advance, hend]
          exact started_finish h
      | readTimeout => exact ⟨by simp [advance, hend], by simp [advance, hend, h]⟩
      | failed message => exact ⟨by simp [advance, hend], by simp [advance, hend, h]⟩

/-- Every action keeps the guarantee. -/
theorem Started.consume {g : Streaming} (h : Started r requestBytes g) (action : Consume) :
    Started r requestBytes (g.consume r requestBytes action) := by
  have hnone : g.phase ≠ .done → g.callbacks = [] := by
    intro hphase
    rw [h.callbacks_eq, if_neg fun hdone => hphase hdone.1]
  cases hphase : g.phase with
  | fresh => exact absurd hphase h.phase_ne
  | atChunk rest =>
      have hempty := hnone (by rw [hphase]; simp)
      cases action with
      | next =>
          simp only [Streaming.consume, hphase]
          exact started_advance hempty rest
      | close =>
          simp only [Streaming.consume, hphase]
          exact started_finish hempty
  | atNotice =>
      have hempty := hnone (by rw [hphase]; simp)
      cases action with
      | next =>
          simp only [Streaming.consume, hphase]
          exact started_finish hempty
      | close =>
          simp only [Streaming.consume, hphase]
          exact started_finish hempty
  | done => cases action <;> simpa only [Streaming.consume, hphase] using h

theorem Started.serve {g : Streaming} (h : Started r requestBytes g) (actions : List Consume) :
    Started r requestBytes (g.serve r requestBytes actions) := by
  induction actions generalizing g with
  | nil => exact h
  | cons action rest ih => exact ih (h.consume action)

/-- A generator that is done stays as it is. -/
theorem serve_done {g : Streaming} (h : g.phase = .done) (actions : List Consume) :
    g.serve r requestBytes actions = g := by
  induction actions with
  | nil => rfl
  | cons action rest ih =>
      have hsame : g.consume r requestBytes action = g := by
        cases action <;> simp only [consume, h]
      show (g.consume r requestBytes action).serve r requestBytes rest = g
      rw [hsame, ih]

end Streaming

/-! ### The number of releases -/

/-- The request reaches a place that calls the callbacks: its body is known, and either
the send fails with an `Exception`, or the response is built, the server pulls a first
chunk, and closing the target's response succeeds. -/
def Call.Delivers (c : Call) (actions : List Consume) : Prop :=
  (∃ body, c.requestBody = .ok body) ∧
    match c.sent with
    | .error (.exception _) => True
    | .error .cancelled => False
    | .ok r => r.wrapping = none ∧ actions.head? = some .next ∧ r.closing = none

/-- Once a streamed response is over, each callback has been called once if the server
pulled a first chunk and closing the response succeeded, and not at all otherwise. -/
theorem streaming_callbacks {r : TargetResponse} {requestBytes : Nat} {actions : List Consume}
    (hover : (Reply.streaming r requestBytes).Over actions) :
    let callbacks := (Reply.streaming r requestBytes).callbacks actions
    (actions.head? = some .next ∧ r.closing = none →
        releases callbacks = 1 ∧ records callbacks = 1) ∧
      (¬ (actions.head? = some .next ∧ r.closing = none) → callbacks = []) := by
  cases actions with
  | nil => exact absurd hover (by simp [Reply.Over, Streaming.serve])
  | cons action rest =>
      cases action with
      | close =>
          have hdone : Streaming.serve r requestBytes {} (.close :: rest) = { phase := .done } :=
            Streaming.serve_done (g := { phase := .done }) rfl rest
          simp [Reply.callbacks, hdone]
      | next =>
          have hstarted : Streaming.Started r requestBytes
              (Streaming.serve r requestBytes {} (.next :: rest)) :=
            (Streaming.started_advance (g := {}) rfl r.chunks).serve rest
          have hcallbacks := hstarted.callbacks_eq
          have hphase : (Streaming.serve r requestBytes {} (.next :: rest)).phase = .done := hover
          simp only [hphase, true_and] at hcallbacks
          simp only [Reply.callbacks, hcallbacks, List.head?_cons, true_and]
          by_cases hclose : r.closing = none
          · simp [hclose, releases, records, Callback.isRelease, List.countP_cons]
          · simp [hclose]

/-- **One release for one request.** Once a request is over, `release` has been called
exactly once and `record` at most once if and only if it `Delivers`: a failed send of the
`Exception` kind, or a stream the server has started and the target's side of which
closes. -/
theorem released_once_iff (c : Call) (actions : List Consume)
    (hover : (forwardRequest c).Over actions) :
    (releases ((forwardRequest c).callbacks actions) = 1 ∧
      records ((forwardRequest c).callbacks actions) ≤ 1) ↔ c.Delivers actions := by
  have hnothing : releases [] ≠ 1 := by decide
  cases hbody : c.requestBody with
  | error error =>
      have hreply : forwardRequest c = .raised error := by simp only [forwardRequest, hbody]
      rw [hreply]
      simp [Reply.callbacks, hnothing, Call.Delivers, hbody]
  | ok body =>
      cases hsent : c.sent with
      | error error =>
          cases error with
          | exception message =>
              have hreply : forwardRequest c = .badGateway ("Proxy error: " ++ message)
                  [.release none, .record none body.length 0 0] := by
                simp only [forwardRequest, hbody, hsent]
              rw [hreply]
              simp [Reply.callbacks, releases, records, Callback.isRelease, List.countP_cons,
                Call.Delivers, hbody, hsent]
          | cancelled =>
              have hreply : forwardRequest c = .raised .cancelled := by
                simp only [forwardRequest, hbody, hsent]
              rw [hreply]
              simp [Reply.callbacks, hnothing, Call.Delivers, hsent]
      | ok r =>
          have hdelivers : c.Delivers actions ↔
              r.wrapping = none ∧ actions.head? = some .next ∧ r.closing = none := by
            simp [Call.Delivers, hbody, hsent]
          rw [hdelivers]
          cases hwrap : r.wrapping with
          | some error =>
              have hreply : forwardRequest c = .raised error := by
                simp only [forwardRequest, hbody, hsent, hwrap]
              rw [hreply]
              simp [Reply.callbacks, hnothing]
          | none =>
              have hreply : forwardRequest c = .streaming r body.length := by
                simp only [forwardRequest, hbody, hsent, hwrap]
              rw [hreply] at hover ⊢
              obtain ⟨honce, hnone⟩ := streaming_callbacks hover
              by_cases hpulled : actions.head? = some .next ∧ r.closing = none
              · obtain ⟨hrelease, hrecord⟩ := honce hpulled
                exact ⟨fun _ => ⟨rfl, hpulled⟩, fun _ => ⟨hrelease, hrecord.le⟩⟩
              · rw [hnone hpulled]
                simp [hnothing, hpulled]

/-- A target that answers with one chunk and closes normally. -/
def oneChunk : TargetResponse :=
  { statusCode := 200, chunks := [[104, 105]], streamEnd := .finished, activeStart := 1,
    activeEnd := 2, wrapping := none, closing := none }

/-- A request with an empty body, answered by `oneChunk`. -/
def oneChunkCall : Call := { body := some [], bodyRead := .ok [], sent := .ok oneChunk }

theorem released_once_iff_streamed :
    releases ((forwardRequest oneChunkCall).callbacks [.next, .next]) = 1 :=
  ((released_once_iff oneChunkCall [.next, .next] (by decide)).mpr
    ⟨⟨[], rfl⟩, rfl, rfl, rfl⟩).1

/-- The server closes the generator before it pulls the first chunk: the request is over,
and the slot is never released. -/
theorem released_once_counterexample :
    (forwardRequest oneChunkCall).Over [.close] ∧
      releases ((forwardRequest oneChunkCall).callbacks [.close]) = 0 := by
  decide

end Relay.Http
