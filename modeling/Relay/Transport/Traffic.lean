import Relay.Library.Counting
import Relay.Store.RequestLog
import Relay.Transport.Http

/-!
# Relay.Transport.Traffic

**What the client is given, and what is written down about it.** The body generator of
`forward_request` hands on the target's chunks and counts their bytes; `_make_record`
(`relay/endpoints.py`) turns its count into a row of the request log.

Of one response, the client gets the chunks of the target from the first on, each of them once
and in their order, and a notice of the proxy only behind the last of them (`body_faithful`).
Over all responses, however their streams interleave with the flushes of the request log, the
log has no row but those of finished requests, with the bytes that were given, and each of these
once; when nothing was dropped or lost, it has all those that `forward_request` made a record of
(`traffic_accounted`).
-/

namespace Relay

namespace Http

/-! ### One response -/

/-- What the generator adds of its own when the target's stream has ended. -/
def StreamEnd.notice? : StreamEnd → Option String
  | .finished | .cancelled => none
  | .readTimeout => some " [Error: Read Timeout] "
  | .failed message => some (" [Error: " ++ message ++ "] ")

/-- The chunk of the target in a piece. -/
def Piece.raw? : Piece → Option Bytes
  | .raw chunk => some chunk
  | .notice _ => none

@[simp] theorem Piece.raw?_raw (chunk : Bytes) : (Piece.raw chunk).raw? = some chunk := rfl

@[simp] theorem Piece.raw?_notice (text : String) : (Piece.notice text).raw? = none := rfl

/-- What a response yields when the server pulls it to its end. -/
def TargetResponse.whole (r : TargetResponse) : List Piece :=
  r.chunks.map .raw ++ r.streamEnd.notice?.toList.map .notice

/-- The target's bytes among some pieces. -/
def bodyBytes (pieces : List Piece) : Bytes := (pieces.filterMap Piece.raw?).flatten

theorem bodyBytes_append (pieces pieces' : List Piece) :
    bodyBytes (pieces ++ pieces') = bodyBytes pieces ++ bodyBytes pieces' := by
  simp [bodyBytes]

@[simp] theorem bodyBytes_raws (chunks : List Bytes) :
    bodyBytes (chunks.map .raw) = chunks.flatten := by
  have hraw : Piece.raw? ∘ Piece.raw = some := rfl
  rw [bodyBytes, List.filterMap_map, hraw, List.filterMap_some]

@[simp] theorem bodyBytes_notice (text : String) : bodyBytes [.notice text] = [] := rfl

namespace Streaming

/-- The pieces are the target's chunks from the first on; behind all of them there may be a
notice. -/
def Faithful (r : TargetResponse) (pieces : List Piece) : Prop :=
  ∃ given rest, r.chunks = given ++ rest ∧
    (pieces = given.map .raw ∨
      rest = [] ∧ ∃ text, r.streamEnd.notice? = some text ∧
        pieces = given.map .raw ++ [.notice text])

/-- What a generator has yielded and counted, at each place where it stands. `pulled` says
that the server has only pulled so far. -/
structure Tells (r : TargetResponse) (pulled : Prop) (g : Streaming) : Prop where
  bytes : g.responseBytes = (bodyBytes g.yielded).length
  faithful : Faithful r g.yielded
  fresh : g.phase = .fresh → g.yielded = []
  atChunk : ∀ rest, g.phase = .atChunk rest →
    ∃ given, r.chunks = given ++ rest ∧ g.yielded = given.map .raw
  atNotice : g.phase = .atNotice → g.yielded = r.whole
  done : g.phase = .done → pulled → g.yielded = r.whole

variable {r : TargetResponse} {requestBytes : Nat} {pulled pulled' : Prop} {g : Streaming}

@[simp] theorem finish_phase : (g.finish r requestBytes).phase = .done := by
  unfold finish
  split <;> rfl

@[simp] theorem finish_yielded : (g.finish r requestBytes).yielded = g.yielded := by
  unfold finish
  split <;> rfl

@[simp] theorem finish_responseBytes :
    (g.finish r requestBytes).responseBytes = g.responseBytes := by
  unfold finish
  split <;> rfl

theorem Tells.init (r : TargetResponse) (pulled : Prop) : Tells r pulled {} where
  bytes := rfl
  faithful := ⟨[], r.chunks, rfl, .inl rfl⟩
  fresh := fun _ => rfl
  atChunk := fun _ h => by simp at h
  atNotice := fun h => by simp at h
  done := fun h => by simp at h

/-- The `finally` yields nothing. -/
theorem Tells.finish (h : Tells r pulled g) (hwhole : pulled' → g.yielded = r.whole) :
    Tells r pulled' (g.finish r requestBytes) where
  bytes := by rw [finish_responseBytes, finish_yielded, h.bytes]
  faithful := by
    rw [finish_yielded]
    exact h.faithful
  fresh := fun hphase => by simp at hphase
  atChunk := fun _ hphase => by simp at hphase
  atNotice := fun hphase => by simp at hphase
  done := fun _ hpulled => by
    rw [finish_yielded]
    exact hwhole hpulled

/-- A turn of the loop, with `rest` to come. -/
theorem Tells.advance (h : Tells r pulled g) {given rest : List Bytes}
    (hchunks : r.chunks = given ++ rest) (hyielded : g.yielded = given.map .raw) :
    Tells r pulled (g.advance r requestBytes rest) := by
  cases rest with
  | cons chunk rest =>
      have hmore : g.yielded ++ [.raw chunk] = (given ++ [chunk]).map .raw := by
        rw [hyielded, List.map_append]
        rfl
      have hrest : r.chunks = (given ++ [chunk]) ++ rest := by
        rw [hchunks, List.append_assoc]
        rfl
      constructor
      · show g.responseBytes + chunk.length = (bodyBytes (g.yielded ++ [.raw chunk])).length
        rw [hmore, bodyBytes_raws, h.bytes, hyielded, bodyBytes_raws]
        simp
      · exact ⟨_, rest, hrest, .inl hmore⟩
      · intro hphase
        exact absurd hphase (by simp [Streaming.advance])
      · intro rest' hphase
        obtain rfl : rest = rest' := by simpa [Streaming.advance] using hphase
        exact ⟨_, hrest, hmore⟩
      · intro hphase
        exact absurd hphase (by simp [Streaming.advance])
      · intro hphase
        exact absurd hphase (by simp [Streaming.advance])
  | nil =>
      rw [List.append_nil] at hchunks
      have hnotice : ∀ text, r.streamEnd.notice? = some text →
          Tells r pulled { g with phase := .atNotice, yielded := g.yielded ++ [.notice text] } := by
        intro text htext
        have hwhole : g.yielded ++ [.notice text] = r.whole := by
          rw [hyielded, TargetResponse.whole, htext, hchunks]
          rfl
        constructor
        · show g.responseBytes = (bodyBytes (g.yielded ++ [.notice text])).length
          rw [bodyBytes_append, bodyBytes_notice, List.append_nil]
          exact h.bytes
        · exact ⟨given, [], by rw [hchunks, List.append_nil], .inr ⟨rfl, text, htext,
            congrArg (· ++ [.notice text]) hyielded⟩⟩
        · intro hphase
          exact absurd hphase (by simp)
        · intro rest' hphase
          exact absurd hphase (by simp)
        · exact fun _ => hwhole
        · intro hphase
          exact absurd hphase (by simp)
      have hended : r.streamEnd.notice? = none → g.yielded = r.whole := by
        intro hnone
        rw [hyielded, TargetResponse.whole, hnone, hchunks]
        simp
      cases hend : r.streamEnd with
      | finished =>
          simp only [Streaming.advance, hend]
          exact h.finish fun _ => hended (by rw [hend]; rfl)
      | cancelled =>
          simp only [Streaming.advance, hend]
          exact h.finish fun _ => hended (by rw [hend]; rfl)
      | readTimeout =>
          simp only [Streaming.advance, hend]
          exact hnotice _ (by rw [hend]; rfl)
      | failed message =>
          simp only [Streaming.advance, hend]
          exact hnotice _ (by rw [hend]; rfl)

/-- The server pulls. -/
theorem Tells.next (h : Tells r pulled g) : Tells r pulled (g.consume r requestBytes .next) := by
  cases hphase : g.phase with
  | fresh =>
      simp only [consume, hphase]
      have hchunks : r.chunks = [] ++ r.chunks := rfl
      exact h.advance hchunks (h.fresh hphase)
  | atChunk rest =>
      simp only [consume, hphase]
      obtain ⟨given, hchunks, hyielded⟩ := h.atChunk rest hphase
      exact h.advance hchunks hyielded
  | atNotice =>
      simp only [consume, hphase]
      exact h.finish fun _ => h.atNotice hphase
  | done => simpa only [consume, hphase] using h

/-- The server closes the generator, wherever it stands. -/
theorem Tells.close (h : Tells r pulled g) : Tells r False (g.consume r requestBytes .close) := by
  have hstays : Tells r False { g with phase := .done } :=
    ⟨h.bytes, h.faithful, fun hp => by simp at hp, fun _ hp => by simp at hp,
      fun hp => by simp at hp, fun _ hfalse => hfalse.elim⟩
  cases hphase : g.phase with
  | fresh =>
      simp only [consume, hphase]
      exact hstays
  | atChunk rest =>
      simp only [consume, hphase]
      exact h.finish False.elim
  | atNotice =>
      simp only [consume, hphase]
      exact h.finish False.elim
  | done =>
      simp only [consume, hphase]
      rw [show g = { g with phase := .done } by rw [← hphase]]
      exact hstays

theorem Tells.mono (h : Tells r pulled g) (himp : pulled' → pulled) : Tells r pulled' g :=
  { h with done := fun hphase hpulled => h.done hphase (himp hpulled) }

theorem tells_serve (r : TargetResponse) (requestBytes : Nat) (actions : List Consume) :
    Tells r (.close ∉ actions) (serve r requestBytes {} actions) := by
  induction actions using List.reverseRecOn with
  | nil => exact Tells.init r _
  | append_singleton actions action ih =>
      rw [serve, List.foldl_append]
      cases action with
      | next => exact ih.next.mono fun h hmem => h (List.mem_append_left _ hmem)
      | close =>
          exact ih.close.mono fun h => h (List.mem_append_right _ (List.mem_singleton_self _))

/-- The callbacks of a stream: none before its end, and then one record at most. -/
theorem record_of_serve {actions : List Consume} {status : Option Int} {n m : Nat} {active : Time}
    (h : .record status n m active ∈ (serve r requestBytes {} actions).callbacks) :
    status = some r.statusCode ∧ n = requestBytes ∧
      m = (bodyBytes (serve r requestBytes {} actions).yielded).length := by
  cases actions with
  | nil => exact absurd h List.not_mem_nil
  | cons action rest =>
      cases action with
      | close =>
          have hdone : serve r requestBytes {} (.close :: rest) = { phase := .done } :=
            serve_done (g := { phase := .done }) rfl rest
          rw [hdone] at h
          exact absurd h List.not_mem_nil
      | next =>
          have hstarted : Started r requestBytes (serve r requestBytes {} (.next :: rest)) :=
            (started_advance (g := {}) rfl r.chunks).serve rest
          rw [hstarted.callbacks_eq] at h
          split at h
          · simp only [List.mem_cons, reduceCtorEq, List.not_mem_nil, or_false, false_or,
              Callback.record.injEq] at h
            obtain ⟨rfl, rfl, rfl, -⟩ := h
            exact ⟨rfl, rfl, (tells_serve r _ _).bytes⟩
          · exact absurd h List.not_mem_nil

end Streaming

/-- What the client is given by the time the ASGI server has taken its actions. -/
def Reply.pieces (actions : List Consume) : Reply → List Piece
  | .raised _ | .badGateway .. => []
  | .streaming r requestBytes => (Streaming.serve r requestBytes {} actions).yielded

/-- The response that a stream is of is the one that was sent for. -/
theorem forwardRequest_cases (c : Call) :
    (∃ error, forwardRequest c = .raised error) ∨
    (∃ body message, c.requestBody = .ok body ∧ forwardRequest c =
      .badGateway message [.release none, .record none body.length 0 0]) ∨
    (∃ body r, c.requestBody = .ok body ∧ c.sent = .ok r ∧
      forwardRequest c = .streaming r body.length) := by
  unfold forwardRequest
  cases hbody : c.requestBody with
  | error error => exact Or.inl ⟨error, rfl⟩
  | ok body =>
      cases hsent : c.sent with
      | error error =>
          cases error with
          | exception message => exact Or.inr (Or.inl ⟨body, _, rfl, rfl⟩)
          | cancelled => exact Or.inl ⟨_, rfl⟩
      | ok r =>
          cases hwrap : r.wrapping with
          | some error => exact Or.inl ⟨error, by simp only [hwrap]⟩
          | none => exact Or.inr (Or.inr ⟨body, r, rfl, rfl, by simp only [hwrap]⟩)

/-- **The body is handed on as it is.** Whatever the server does with the generator, the client
is given the target's chunks from the first on and, behind the last of them, at most a notice
that says how the stream ended; all of it when the server pulls to the end. A record has the
number of the bytes that were given. -/
theorem body_faithful (c : Call) (actions : List Consume) :
    (∀ r, c.sent = .ok r → Streaming.Faithful r ((forwardRequest c).pieces actions)) ∧
    (∀ r requestBytes, forwardRequest c = .streaming r requestBytes →
      (forwardRequest c).Over actions → .close ∉ actions →
        (forwardRequest c).pieces actions = r.whole) ∧
    ∀ status n m active, .record status n m active ∈ (forwardRequest c).callbacks actions →
      ∃ body, c.requestBody = .ok body ∧ n = body.length ∧
        m = (bodyBytes ((forwardRequest c).pieces actions)).length := by
  have hnothing : ∀ r : TargetResponse, Streaming.Faithful r [] :=
    fun r => ⟨[], r.chunks, rfl, .inl rfl⟩
  rcases forwardRequest_cases c with ⟨error, hreply⟩ | ⟨body, message, hbody, hreply⟩ |
    ⟨body, r, hbody, hsent, hreply⟩
  · rw [hreply]
    exact ⟨fun r _ => hnothing r, fun _ _ h => absurd h (by simp),
      fun _ _ _ _ h => absurd h List.not_mem_nil⟩
  · rw [hreply]
    refine ⟨fun r _ => hnothing r, fun _ _ h => absurd h (by simp), fun status n m active h => ?_⟩
    simp only [Reply.callbacks, List.mem_cons, reduceCtorEq, List.not_mem_nil, or_false, false_or,
      Callback.record.injEq] at h
    obtain ⟨-, rfl, rfl, -⟩ := h
    exact ⟨body, hbody, rfl, rfl⟩
  · rw [hreply]
    have htells := Streaming.tells_serve r body.length actions
    refine ⟨fun r' hr' => ?_, fun r' n h hover hpulled => ?_, fun status n m active h => ?_⟩
    · obtain rfl : r = r' := Except.ok.inj (hsent.symm.trans hr')
      exact htells.faithful
    · obtain ⟨rfl, rfl⟩ := Reply.streaming.inj h
      exact htells.done hover hpulled
    · obtain ⟨-, rfl, rfl⟩ := Streaming.record_of_serve h
      exact ⟨body, hbody, rfl, rfl⟩

end Http

/-! ### All responses -/

/-- What `_make_record` closes over. -/
structure RecordContext where
  server : String
  endpoint : String
  client : String
  sessionId : String
  waitSeconds : Time
  deriving DecidableEq

/-- The record that `_record` stages at the time `ts`. A status code of HTTP has no sign. -/
def RecordContext.record (context : RecordContext) (ts : Time) (statusCode : Option Int)
    (requestBytes responseBytes : Nat) (activeSeconds : Time) : RequestRecord where
  ts := ts
  server := context.server
  endpoint := context.endpoint
  client := context.client
  sessionId := context.sessionId
  waitSeconds := context.waitSeconds
  activeSeconds := activeSeconds
  statusCode := statusCode.map Int.toNat
  requestBytes := requestBytes
  responseBytes := responseBytes

/-- The callback that `_make_record` makes, and that stages a record when it is called. -/
def RecordContext.makeRecord (context : RecordContext) (ts : Time) :
    Http.Callback → Option RequestRecord
  | .release _ => none
  | .record statusCode requestBytes responseBytes activeSeconds =>
      some (context.record ts statusCode requestBytes responseBytes activeSeconds)

/-- A request that is forwarded: what the ASGI server has done with its response so far, and
when it did the last of it. -/
structure Forward where
  context : RecordContext
  call : Http.Call
  actions : List Http.Consume := []
  ts : Time

namespace Forward

variable (f : Forward)

def reply : Http.Reply := Http.forwardRequest f.call

/-- The callbacks called so far. -/
def callbacks : List Http.Callback := f.reply.callbacks f.actions

/-- What the client was given. -/
def pieces : List Http.Piece := f.reply.pieces f.actions

/-- The records staged so far. -/
def records : List RequestRecord := f.callbacks.filterMap (f.context.makeRecord f.ts)

/-- The generator takes one action more. -/
def resume (action : Http.Consume) (ts : Time) : Forward :=
  { f with actions := f.actions ++ [action], ts := ts }

/-- The size of the body that is forwarded. -/
def bodySize : Nat := (f.call.requestBody.toOption.getD []).length

/-- What is to be written down about a request that is over: nothing when its response was never
begun, or could not be closed. -/
def account : Option RequestRecord :=
  match f.reply with
  | .raised _ => none
  | .badGateway .. => some (f.context.record f.ts none f.bodySize 0 0)
  | .streaming r _ =>
      if f.reply.Over f.actions ∧ f.actions.head? = some .next ∧ r.closing = none then
        some (f.context.record f.ts (some r.statusCode) f.bodySize
          (Http.bodyBytes f.pieces).length (r.activeEnd - r.activeStart))
      else none

/-- What is staged is what is to be written down. -/
theorem records_eq (f : Forward) : f.records = f.account.toList := by
  rcases Http.forwardRequest_cases f.call with ⟨error, hreply⟩ | ⟨body, message, hbody, hreply⟩ |
    ⟨body, r, hbody, -, hreply⟩
  · simp only [records, callbacks, account, reply, hreply]
    rfl
  · simp only [records, callbacks, account, reply, hreply, bodySize, hbody]
    rfl
  · have hsize : f.bodySize = body.length := by simp only [bodySize, hbody]; rfl
    have htells := Http.Streaming.tells_serve r body.length f.actions
    simp only [records, callbacks, account, reply, pieces, hreply, hsize, Http.Reply.callbacks,
      Http.Reply.Over, Http.Reply.pieces]
    cases hactions : f.actions with
    | nil => rfl
    | cons action rest =>
        cases action with
        | close =>
            have hdone : Http.Streaming.serve r body.length {} (.close :: rest) =
                { phase := .done } :=
              Http.Streaming.serve_done (g := { phase := .done }) rfl rest
            rw [hdone, if_neg (by simp)]
            rfl
        | next =>
            have hstarted : Http.Streaming.Started r body.length
                (Http.Streaming.serve r body.length {} (.next :: rest)) :=
              (Http.Streaming.started_advance (g := {}) rfl r.chunks).serve rest
            rw [hactions] at htells
            rw [hstarted.callbacks_eq]
            by_cases hended : (Http.Streaming.serve r body.length {} (.next :: rest)).phase =
                .done ∧ r.closing = none
            · rw [if_pos hended, if_pos ⟨hended.1, rfl, hended.2⟩, htells.bytes]
              rfl
            · rw [if_neg hended, if_neg fun h => hended ⟨h.1, h.2.2⟩]
              rfl

/-- A response that is not over has staged nothing. -/
theorem callbacks_eq_nil (h : ¬ f.reply.Over f.actions) : f.callbacks = [] := by
  rcases Http.forwardRequest_cases f.call with ⟨error, hreply⟩ | ⟨body, message, -, hreply⟩ |
    ⟨body, r, -, -, hreply⟩
  · simp only [callbacks, reply, hreply]
    rfl
  · exact absurd trivial (by simpa only [reply, hreply, Http.Reply.Over] using h)
  · simp only [callbacks, reply, hreply, Http.Reply.callbacks, Http.Reply.Over] at h ⊢
    cases hactions : f.actions with
    | nil => rfl
    | cons action rest =>
        rw [hactions] at h
        cases action with
        | close =>
            have hdone : Http.Streaming.serve r body.length {} (.close :: rest) =
                { phase := .done } :=
              Http.Streaming.serve_done (g := { phase := .done }) rfl rest
            rw [hdone]
        | next =>
            have hstarted : Http.Streaming.Started r body.length
                (Http.Streaming.serve r body.length {} (.next :: rest)) :=
              (Http.Streaming.started_advance (g := {}) rfl r.chunks).serve rest
            rw [hstarted.callbacks_eq, if_neg fun hdone => h hdone.1]

end Forward

/-! ### The records that are kept -/

namespace RequestLog

variable {L L' : RequestLog} {requests : List RequestRecord} {f : Flusher}

/-- The records on their way to the table. -/
def pending (L : RequestLog) : List RequestRecord :=
  (L.phase .loop).batch ++ (L.phase .drain).batch ++ L.store.requestBuffer

theorem length_pending (L : RequestLog) :
    L.pending.length = L.writing + L.store.requestBuffer.length := by
  simp [pending, writing, Nat.add_assoc]

/-- The table has grown by records that were enqueued; these and the ones on their way to it
are all different ones. -/
def Kept (requests : List RequestRecord) (L : RequestLog) : Prop :=
  ∃ rows, L.store.requests = requests ++ rows ∧ (rows ++ L.pending).Subperm L.enqueued

/-- What is on its way changes with the phase of a task. -/
theorem pending_setPhase (L : RequestLog) (f : Flusher) (phase : FlushPhase) :
    ((L.setPhase f phase).pending ++ (L.phase f).batch).Perm (L.pending ++ phase.batch) := by
  rw [List.perm_iff_count]
  intro a
  cases f <;> simp [setPhase, pending, Function.update, List.count_append] <;> omega

/-- A flush takes the buffer as a whole, or finds it empty. -/
theorem pending_beginFlush (hidle : L.phase f = .idle) :
    (L.beginFlush f).pending.Perm L.pending := by
  have hbatch : (if L.store.requestBuffer = [] then L.afterFlush f
      else .writing L.store.requestBuffer).batch = L.store.requestBuffer := by
    split
    · rename_i hnil
      rw [afterFlush_batch, hnil]
    · rfl
  have hmoves := pending_setPhase { L with store := L.store.takeBuffer.2, unflushed := [] } f
    (if L.store.requestBuffer = [] then L.afterFlush f else .writing L.store.requestBuffer)
  rw [hbatch] at hmoves
  have htaken : (pending { L with store := L.store.takeBuffer.2, unflushed := [] }) ++
      L.store.requestBuffer = L.pending := by
    simp [pending, RequestStore.takeBuffer]
  rw [htaken, hidle, FlushPhase.batch_idle, List.append_nil] at hmoves
  exact hmoves

/-- A flush that has ended has its batch no more. -/
theorem pending_endFlush {records : List RequestRecord} (hwriting : L.phase f = .writing records)
    (outcome : FlushOutcome) :
    ((L.endFlush f records outcome).pending ++ records).Perm L.pending := by
  have hmoves := pending_setPhase
    { L with
      store := L.store.bulkLogRequests records outcome
      lost := if outcome.losesBatch then L.lost ++ records else L.lost } f (L.afterFlush f)
  have hsame : pending { L with
      store := L.store.bulkLogRequests records outcome
      lost := if outcome.losesBatch then L.lost ++ records else L.lost } = L.pending := by
    simp only [pending, Counted.bulkLogRequests_buffer]
  rw [hsame, hwriting, FlushPhase.batch_writing, afterFlush_batch, List.append_nil] at hmoves
  exact hmoves

theorem Kept.init (requests : List RequestRecord) : Kept requests (.init requests) :=
  ⟨[], (List.append_nil _).symm, List.Subperm.refl _⟩

/-- A record is staged; one that a full buffer sheds is on its way no more. -/
theorem Kept.stage (h : Kept requests L) (record : RequestRecord) :
    Kept requests (L.stage record) := by
  obtain ⟨rows, htable, hsub⟩ := h
  refine ⟨rows, htable, ?_⟩
  have hpush : (L.stage record).pending.Sublist (L.pending ++ [record]) := by
    simp only [pending, List.append_assoc]
    refine List.Sublist.append (List.Sublist.refl _) (List.Sublist.append (List.Sublist.refl _) ?_)
    exact Shedding.push_sublist requestBufferMax L.store.requestBuffer record
  have hmore : (rows ++ L.pending ++ [record]).Subperm (L.enqueued ++ [record]) :=
    (List.subperm_append_right [record]).mpr hsub
  rw [List.append_assoc] at hmore
  exact ((List.Sublist.refl rows).append hpush).subperm.trans hmore

theorem Kept.beginFlush (h : Kept requests L) (hidle : L.phase f = .idle) :
    Kept requests (L.beginFlush f) := by
  obtain ⟨rows, htable, hsub⟩ := h
  exact ⟨rows, htable, ((pending_beginFlush hidle).append_left rows).subperm.trans hsub⟩

/-- A batch is inserted, or is on its way no more. -/
theorem Kept.endFlush (h : Kept requests L) {records : List RequestRecord}
    (hwriting : L.phase f = .writing records) (outcome : FlushOutcome) :
    Kept requests (L.endFlush f records outcome) := by
  obtain ⟨rows, htable, hsub⟩ := h
  have hends := pending_endFlush hwriting outcome
  have hgone : (rows ++ (L.endFlush f records outcome).pending).Subperm L.enqueued :=
    (((List.Sublist.refl rows).append (List.sublist_append_left _ records)).subperm.trans
      (hends.append_left rows).subperm).trans hsub
  by_cases hinserted : outcome = .write none
  · subst hinserted
    refine ⟨rows ++ records, ?_, ?_⟩
    · show L.store.requests ++ records = requests ++ (rows ++ records)
      rw [htable, List.append_assoc]
    · have hmove : (rows ++ records ++ (L.endFlush f records (.write none)).pending).Perm
          (rows ++ L.pending) := by
        rw [List.append_assoc]
        exact (List.perm_append_comm.trans hends).append_left rows
      exact hmove.subperm.trans hsub
  · refine ⟨rows, ?_, hgone⟩
    show (L.store.bulkLogRequests records outcome).requests = _
    rw [← htable]
    cases outcome with
    | cancelled => rfl
    | write outcome =>
        cases outcome with
        | none => exact absurd rfl hinserted
        | some e =>
            simp only [RequestStore.bulkLogRequests]
            split <;> rfl

theorem Kept.cancelLoop (h : Kept requests L) : Kept requests L.cancelLoop := by
  obtain ⟨rows, htable, hsub⟩ := h
  unfold RequestLog.cancelLoop
  split
  · rename_i hidle
    refine ⟨rows, htable, ?_⟩
    have hmoves : ((setPhase { L with stopping := true } .loop .ended).pending ++
        (L.phase .loop).batch).Perm (L.pending ++ []) :=
      pending_setPhase { L with stopping := true } .loop .ended
    rw [hidle, FlushPhase.batch_idle, List.append_nil, List.append_nil] at hmoves
    exact (hmoves.append_left rows).subperm.trans hsub
  · exact ⟨rows, htable, hsub⟩

theorem Kept.step (h : Kept requests L) {op : Op} (hop : L.step op = some L') :
    Kept requests L' := by
  rcases step_cases hop with ⟨record, -, rfl⟩ | ⟨f, -, hidle, rfl⟩ |
    ⟨f, outcome, records, -, hwriting, rfl⟩ | ⟨-, rfl⟩
  · exact h.stage record
  · exact h.beginFlush hidle
  · exact h.endFlush hwriting outcome
  · exact h.cancelLoop

/-- Where nothing was dropped and nothing was lost, everything is kept. -/
theorem Kept.perm (h : Kept requests L) (hcounted : Counted requests L)
    (hdropped : L.store.droppedRequests = 0) (hlost : L.lost = []) :
    ∃ rows, L.store.requests = requests ++ rows ∧ (rows ++ L.pending).Perm L.enqueued := by
  obtain ⟨rows, htable, hsub⟩ := h
  refine ⟨rows, htable, hsub.perm_of_length_le ?_⟩
  have hbalance := hcounted.balance
  rw [hdropped, hlost, htable, List.length_append, List.length_nil] at hbalance
  rw [List.length_append, length_pending]
  omega

end RequestLog

/-! ### The responses and the log -/

/-- The requests that are being forwarded or were, with the request log. -/
structure Traffic where
  forwards : List Forward
  log : RequestLog

namespace Traffic

/-- The store has been opened on a table. -/
def init (requests : List RequestRecord) : Traffic where
  forwards := []
  log := .init requests

inductive Op
  /-- An endpoint calls `forward_request`. -/
  | forward (context : RecordContext) (call : Http.Call) (ts : Time)
  /-- The ASGI server goes on with the `i`th of the responses. -/
  | serve (i : Nat) (action : Http.Consume) (ts : Time)
  /-- The flush loop, the drain or the shutdown take a step. -/
  | log (op : RequestLog.Op)

variable (x : Traffic)

/-- Some records are staged. -/
def stageAll (records : List RequestRecord) : RequestLog := records.foldl RequestLog.stage x.log

/-- One step. An action on a response calls those of its callbacks that were not called before. -/
def step : Op → Option Traffic
  | .forward context call ts =>
      let f : Forward := { context, call, ts }
      some { forwards := x.forwards ++ [f], log := x.stageAll f.records }
  | .serve i action ts =>
      match x.forwards[i]? with
      | none => none
      | some f =>
          if f.reply.Over f.actions then none
          else
            let f' := f.resume action ts
            let called := f'.callbacks.drop f.callbacks.length
            some
              { forwards := x.forwards.set i f'
                log := x.stageAll (called.filterMap (f'.context.makeRecord ts)) }
  | .log (.enqueue _) => none
  | .log op => (x.log.step op).map fun log => { x with log := log }

/-- The log has what the responses staged. -/
structure Logged (requests : List RequestRecord) (x : Traffic) : Prop where
  enqueued : x.log.enqueued.Perm (x.forwards.flatMap Forward.records)
  kept : x.log.Kept requests
  counted : RequestLog.Counted requests x.log

variable {x} {x' : Traffic} {requests : List RequestRecord}

theorem stageAll_enqueued (records : List RequestRecord) (log : RequestLog) :
    (records.foldl RequestLog.stage log).enqueued = log.enqueued ++ records := by
  induction records generalizing log with
  | nil => exact (List.append_nil _).symm
  | cons record records ih =>
      rw [List.foldl_cons, ih]
      show log.enqueued ++ [record] ++ records = _
      rw [List.append_assoc]
      rfl

theorem stageAll_invariant {I : RequestLog → Prop}
    (hstage : ∀ log record, I log → I (log.stage record)) (records : List RequestRecord)
    {log : RequestLog} (h : I log) : I (records.foldl RequestLog.stage log) := by
  induction records generalizing log with
  | nil => exact h
  | cons record records ih => exact ih (hstage log record h)

/-- Records are staged, and the responses account for them. -/
theorem Logged.stageAll (h : Logged requests x) {records : List RequestRecord}
    {forwards : List Forward}
    (hforwards : (x.log.enqueued ++ records).Perm (forwards.flatMap Forward.records)) :
    Logged requests { forwards, log := x.stageAll records } where
  enqueued := by
    show ((records.foldl RequestLog.stage x.log).enqueued).Perm _
    rw [stageAll_enqueued]
    exact hforwards
  kept := stageAll_invariant (I := fun log => log.Kept requests)
    (fun _ record hkept => hkept.stage record) records h.kept
  counted := stageAll_invariant (fun _ record hcounted => hcounted.stage record) records h.counted

/-- The steps of the flushers enqueue nothing. -/
theorem enqueued_of_step {L L' : RequestLog} {op : RequestLog.Op} (h : L.step op = some L')
    (hop : ∀ record, op ≠ .enqueue record) : L'.enqueued = L.enqueued := by
  rcases RequestLog.step_cases h with ⟨record, rfl, -⟩ | ⟨f, -, -, rfl⟩ |
    ⟨f, outcome, records, -, -, rfl⟩ | ⟨-, rfl⟩
  · exact absurd rfl (hop record)
  · rfl
  · rfl
  · unfold RequestLog.cancelLoop
    split <;> rfl

theorem Logged.log (h : Logged requests x) {op : RequestLog.Op} {log : RequestLog}
    (hop : ∀ record, op ≠ .enqueue record) (hstep : x.log.step op = some log) :
    Logged requests { x with log := log } where
  enqueued := by
    rw [enqueued_of_step hstep hop]
    exact h.enqueued
  kept := h.kept.step hstep
  counted := h.counted.step hstep

theorem Logged.step (h : Logged requests x) {op : Op} (hop : x.step op = some x') :
    Logged requests x' := by
  cases op with
  | forward context call ts =>
      obtain rfl := Option.some.inj hop
      refine h.stageAll ?_
      rw [List.flatMap_append, List.flatMap_singleton]
      exact h.enqueued.append_right _
  | serve i action ts =>
      simp only [Traffic.step] at hop
      cases hget : x.forwards[i]? with
      | none => simp [hget] at hop
      | some f =>
          simp only [hget] at hop
          obtain ⟨hover, heq⟩ := Option.ite_none_left_eq_some.mp hop
          obtain rfl := Option.some.inj heq
          -- the response was not over, so that all its callbacks are new
          have hnil := f.callbacks_eq_nil hover
          have hnone : f.records = [] := by rw [Forward.records, hnil]; rfl
          rw [hnil, List.length_nil, List.drop_zero]
          refine h.stageAll ?_
          have hset := Counting.flatMap_set_perm Forward.records hget (b := f.resume action ts)
          rw [hnone, List.append_nil] at hset
          exact (h.enqueued.append_right _).trans hset.symm
  | log op =>
      cases op with
      | enqueue record => simp [Traffic.step] at hop
      | flush f =>
          obtain ⟨log, hlog, rfl⟩ := Option.map_eq_some_iff.mp hop
          exact h.log (by simp) hlog
      | settle f outcome =>
          obtain ⟨log, hlog, rfl⟩ := Option.map_eq_some_iff.mp hop
          exact h.log (by simp) hlog
      | shutdown =>
          obtain ⟨log, hlog, rfl⟩ := Option.map_eq_some_iff.mp hop
          exact h.log (by simp) hlog

theorem logged_of_run {ops : List Op} (h : Runs.exec step (init requests) ops = some x) :
    Logged requests x := by
  have hinit : Logged requests (init requests) :=
    ⟨List.Perm.refl _, .init requests, .init requests⟩
  exact (Runs.run_any_of_exec h).invariant (fun _ _ _ hlogged hstep => hlogged.step hstep.1) hinit

/-- **The request log tells what was served.** However the streams of the responses interleave
with each other and with the flushes, the rows that the table has gained and the records on
their way to it belong to finished requests, one to each of these at most, with the bytes that
its client was given. With nothing dropped and nothing lost, each request with an account has its
own: one whose send failed, or whose response was begun, is over and could be closed. -/
theorem traffic_accounted {ops : List Op} (h : Runs.exec step (init requests) ops = some x) :
    (∃ rows, x.log.store.requests = requests ++ rows ∧
      (rows ++ x.log.pending).Subperm (x.forwards.filterMap Forward.account)) ∧
    (x.log.store.droppedRequests = 0 → x.log.lost = [] →
      ∃ rows, x.log.store.requests = requests ++ rows ∧
        (rows ++ x.log.pending).Perm (x.forwards.filterMap Forward.account)) := by
  have hlogged := logged_of_run h
  have hstaged : x.forwards.flatMap Forward.records = x.forwards.filterMap Forward.account := by
    rw [List.filterMap_eq_flatMap_toList]
    exact congrArg x.forwards.flatMap (funext Forward.records_eq)
  have henqueued := hlogged.enqueued
  rw [hstaged] at henqueued
  constructor
  · obtain ⟨rows, htable, hsub⟩ := hlogged.kept
    exact ⟨rows, htable, hsub.trans henqueued.subperm⟩
  · intro hdropped hlost
    obtain ⟨rows, htable, hperm⟩ := hlogged.kept.perm hlogged.counted hdropped hlost
    exact ⟨rows, htable, hperm.trans henqueued⟩

/-- A queued request of a session. -/
def queuedContext : RecordContext := ⟨"gpu", "chat", "opencode", "s1", 3⟩

/-- The target falls silent behind its second chunk. -/
def fallenSilent : Http.TargetResponse :=
  { statusCode := 200, chunks := [[104, 105], [33]], streamEnd := .readTimeout, activeStart := 1,
    activeEnd := 9, wrapping := none, closing := none }

/-- The send of a second request fails while the first one is served, and a flush takes the record
of the second before the first is over. -/
def oneSilentOneFailed : List Op :=
  [.forward queuedContext
      { body := some [1, 2, 3], bodyRead := .ok [], sent := .ok fallenSilent } 1,
    .serve 0 .next 2,
    .forward queuedContext
      { body := some [7], bodyRead := .ok [], sent := .error (.exception "no") } 2,
    .log (.flush .loop), .serve 0 .next 3, .serve 0 .next 8, .log (.settle .loop (.write none)),
    .serve 0 .next 9, .log .shutdown, .log (.flush .drain)]

theorem traffic_accounted_oneSilentOneFailed :
    ∃ x, Runs.exec step (init []) oneSilentOneFailed = some x ∧
      (∃ rows, x.log.store.requests = [] ++ rows ∧
        (rows ++ x.log.pending).Perm (x.forwards.filterMap Forward.account)) ∧
      (x.forwards.filterMap Forward.account).map RequestRecord.responseBytes = [3, 0] := by
  have hview : (Runs.exec step (init []) oneSilentOneFailed).map (fun x =>
      (x.log.store.droppedRequests, x.log.lost,
        (x.forwards.filterMap Forward.account).map RequestRecord.responseBytes)) =
      some (0, [], [3, 0]) := by
    decide +kernel
  obtain ⟨x, hexec, hx⟩ := Option.map_eq_some_iff.mp hview
  obtain ⟨hdropped, hx⟩ := Prod.mk.inj hx
  obtain ⟨hlost, hbytes⟩ := Prod.mk.inj hx
  exact ⟨x, hexec, (traffic_accounted hexec).2 hdropped hlost, hbytes⟩

end Traffic

end Relay
