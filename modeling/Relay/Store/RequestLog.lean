import Relay.Library.Runs
import Relay.Library.Shedding
import Relay.Server.Degraded

/-!
# Relay.Store.RequestLog

**The request log of the store** (`relay/store.py`). Completed requests are staged in a
bounded buffer, which a flush swaps out and writes in one transaction. Two tasks flush: the
flush loop, once a second, and `RelayApp.shutdown`, which cancels the loop and then drains the
buffer. A flush is suspended only in its transaction, so that records are enqueued, and the
other task flushes, while a batch is being written.

`Counted` is the conservation law of the log: a record that was enqueued is in the table, in
the buffer, in a batch that is being written, or counted as dropped, unless its batch was
lost. A batch is lost when its transaction is cancelled, or raises an error that the store
passes on: both leave `bulk_log_requests` past the line that counts (`request_accounting`).
-/

namespace Relay

open Runs

/-- `REQUEST_BUFFER_MAX`. -/
def requestBufferMax : Nat := 10000

theorem requestBufferMax_pos : 0 < requestBufferMax := by decide

/-- `RequestRecord`. -/
structure RequestRecord where
  ts : Time
  server : String
  endpoint : String
  client : String
  sessionId : String
  waitSeconds : Time
  activeSeconds : Time
  statusCode : Option Nat
  requestBytes : Nat
  responseBytes : Nat
  deriving DecidableEq

/-- The request log of `Store`; `requests` is the table. -/
structure RequestStore where
  requestBuffer : List RequestRecord
  degraded : Bool
  droppedWrites : Nat
  droppedRequests : Nat
  requests : List RequestRecord

/-- What becomes of the transaction of a flush: what becomes of a write, or it is cancelled. -/
inductive FlushOutcome
  | write (outcome : WriteOutcome)
  | cancelled
  deriving DecidableEq, Repr

/-- The flush neither inserts its batch nor counts it. -/
def FlushOutcome.losesBatch : FlushOutcome → Bool
  | .write outcome => outcome.isRaised
  | .cancelled => true

namespace RequestStore

/-- `Store.__init__`, over the rows the table has. -/
def init (requests : List RequestRecord) : RequestStore where
  requestBuffer := []
  degraded := false
  droppedWrites := 0
  droppedRequests := 0
  requests := requests

variable (S : RequestStore)

/-- `enqueue_request`. -/
def enqueueRequest (record : RequestRecord) : RequestStore :=
  { S with
    droppedRequests :=
      if requestBufferMax ≤ S.requestBuffer.length then S.droppedRequests + 1
      else S.droppedRequests
    requestBuffer := Shedding.push requestBufferMax S.requestBuffer record }

/-- `flush_requests` up to its transaction: the batch, and the store with a new buffer. -/
def takeBuffer : List RequestRecord × RequestStore :=
  (S.requestBuffer, { S with requestBuffer := [] })

/-- `bulk_log_requests` after its transaction. -/
def bulkLogRequests (records : List RequestRecord) : FlushOutcome → RequestStore
  | .write none => { S with requests := S.requests ++ records, degraded := false }
  | .write (some e) =>
      if e.dbFailure then
        { S with
          droppedWrites := S.droppedWrites + 1
          degraded := true
          droppedRequests := S.droppedRequests + records.length }
      else S
  | .cancelled => S

end RequestStore

/-! ### The tasks that flush -/

/-- The tasks: `request_flush_loop`, and the drain of `RelayApp.shutdown`. -/
inductive Flusher
  | loop
  | drain
  deriving DecidableEq, Repr

/-- Where a task is suspended: before its next call of `flush_requests`, or in the transaction
of one. -/
inductive FlushPhase
  | idle
  | writing (records : List RequestRecord)
  | ended
  deriving DecidableEq

/-- The batch a task is writing. -/
def FlushPhase.batch : FlushPhase → List RequestRecord
  | .writing records => records
  | .idle | .ended => []

@[simp] theorem FlushPhase.batch_idle : FlushPhase.idle.batch = [] := rfl

@[simp] theorem FlushPhase.batch_writing (records : List RequestRecord) :
    (FlushPhase.writing records).batch = records := rfl

/-- The store with its flushers; `stopping` once the shutdown has cancelled the loop. History
variables: all records ever enqueued, those enqueued since the buffer was last swapped out, and
those of lost batches. -/
structure RequestLog where
  store : RequestStore
  phase : Flusher → FlushPhase
  stopping : Bool
  enqueued : List RequestRecord
  unflushed : List RequestRecord
  lost : List RequestRecord

namespace RequestLog

/-- The store has been opened on a table, and the loop started. -/
def init (requests : List RequestRecord) : RequestLog where
  store := .init requests
  phase := fun _ => .idle
  stopping := false
  enqueued := []
  unflushed := []
  lost := []

/-- What happens to the log. -/
inductive Op
  | enqueue (record : RequestRecord)
  /-- The task calls `flush_requests`. -/
  | flush (f : Flusher)
  /-- The transaction of the task's flush comes to its end. -/
  | settle (f : Flusher) (outcome : FlushOutcome)
  /-- `RelayApp.shutdown` cancels the loop. -/
  | shutdown
  deriving DecidableEq

/-- The flush of a non-empty batch ends without having counted it. -/
def Op.losesBatch : Op → Bool
  | .settle _ outcome => outcome.losesBatch
  | _ => false

variable (L : RequestLog)

/-- Replaces the phase of a task. -/
def setPhase (f : Flusher) (phase : FlushPhase) : RequestLog :=
  { L with phase := Function.update L.phase f phase }

/-- Where a task goes when a flush has returned: the loop sleeps again, also after an error
that it logs, unless it has been cancelled; the drain flushes once. -/
def afterFlush : Flusher → FlushPhase
  | .loop => if L.stopping then .ended else .idle
  | .drain => .ended

/-- The loop flushes until the shutdown cancels it, the drain after that. -/
def flushes : Flusher → Bool
  | .loop => !L.stopping
  | .drain => L.stopping

/-- A completed request is staged. -/
def stage (record : RequestRecord) : RequestLog :=
  { L with
    store := L.store.enqueueRequest record
    enqueued := L.enqueued ++ [record]
    unflushed := L.unflushed ++ [record] }

/-- A task calls `flush_requests`, which returns at once when there is nothing to write. -/
def beginFlush (f : Flusher) : RequestLog :=
  let records := L.store.takeBuffer.1
  setPhase { L with store := L.store.takeBuffer.2, unflushed := [] } f
    (if records = [] then L.afterFlush f else .writing records)

/-- The transaction of a task's flush comes to its end. -/
def endFlush (f : Flusher) (records : List RequestRecord) (outcome : FlushOutcome) : RequestLog :=
  setPhase
    { L with
      store := L.store.bulkLogRequests records outcome
      lost := if outcome.losesBatch then L.lost ++ records else L.lost } f (L.afterFlush f)

/-- `RelayApp.shutdown` cancels the loop: one that is asleep ends here, one that is writing
when its transaction does. -/
def cancelLoop : RequestLog :=
  let stopped := { L with stopping := true }
  if L.phase .loop = .idle then stopped.setPhase .loop .ended else stopped

/-- One step. A transaction is cancelled by the shutdown only. -/
def step : Op → Option RequestLog
  | .enqueue record => some (L.stage record)
  | .flush f => if L.phase f = .idle ∧ L.flushes f = true then some (L.beginFlush f) else none
  | .settle f outcome =>
      match L.phase f with
      | .writing records =>
          if outcome = .cancelled ∧ L.stopping = false then none
          else some (L.endFlush f records outcome)
      | .idle | .ended => none
  | .shutdown => if L.stopping then none else some L.cancelLoop

/-- No flush is in progress. -/
def Quiet : Prop := ∀ f records, L.phase f ≠ .writing records

/-- Every record ever enqueued is a row that was inserted, or is buffered, or was counted as
dropped; `requests` are the rows the table had at the start. -/
def Balances (requests : List RequestRecord) : Prop :=
  requests.length + L.enqueued.length =
    L.store.requests.length + L.store.requestBuffer.length + L.store.droppedRequests

/-- The buffer is within its bound, and holds the last records that were enqueued and not
taken by a flush, in their order. -/
def BuffersLast : Prop :=
  L.store.requestBuffer.length ≤ requestBufferMax ∧
    L.store.requestBuffer = L.unflushed.rtake requestBufferMax

/-! ### The conservation law -/

/-- The number of records that are being written. -/
def writing : Nat := (L.phase .loop).batch.length + (L.phase .drain).batch.length

/-- Where the records are. -/
structure Counted (requests : List RequestRecord) (L : RequestLog) : Prop where
  balance : requests.length + L.enqueued.length =
    L.store.requests.length + L.store.requestBuffer.length + L.store.droppedRequests +
      L.writing + L.lost.length
  buffersLast : L.BuffersLast
  batch_ne_nil : ∀ f, L.phase f ≠ .writing []

variable {L} {L' : RequestLog} {requests : List RequestRecord} {f : Flusher}

theorem writing_eq_zero (h : L.Quiet) : L.writing = 0 := by
  have hbatch : ∀ f, (L.phase f).batch = [] := by
    intro f
    cases hphase : L.phase f with
    | writing records => exact absurd hphase (h f records)
    | idle | ended => rfl
  simp [writing, hbatch]

/-- What is being written changes with the phase of a task. -/
theorem writing_setPhase (L : RequestLog) (f : Flusher) (phase : FlushPhase) :
    (L.setPhase f phase).writing + (L.phase f).batch.length =
      L.writing + phase.batch.length := by
  cases f <;> simp [setPhase, writing, Function.update] <;> omega

theorem afterFlush_batch (L : RequestLog) (f : Flusher) : (L.afterFlush f).batch = [] := by
  cases f <;> simp only [afterFlush]
  · split <;> rfl
  · rfl

namespace Counted

theorem init (requests : List RequestRecord) : Counted requests (.init requests) where
  balance := rfl
  buffersLast := ⟨Nat.zero_le _, (List.rtake_nil _).symm⟩
  batch_ne_nil := fun _ => FlushPhase.noConfusion

theorem setPhase_ne_nil (h : ∀ f, L.phase f ≠ .writing []) {phase : FlushPhase}
    (hphase : phase ≠ .writing []) : ∀ f', (L.setPhase f phase).phase f' ≠ .writing [] := by
  intro f'
  by_cases hf : f' = f
  · subst hf
    simpa [setPhase] using hphase
  · simpa [setPhase, hf] using h f'

theorem afterFlush_ne_nil (L : RequestLog) (f : Flusher) : L.afterFlush f ≠ .writing [] := by
  cases f <;> simp only [afterFlush]
  · split <;> simp
  · simp

/-- A record is staged; it takes the place of another one when the buffer is full. -/
theorem stage (h : Counted requests L) (record : RequestRecord) :
    Counted requests (L.stage record) where
  balance := by
    have hlength := Shedding.length_push requestBufferMax_pos L.store.requestBuffer record
    have hbalance := h.balance
    simp only [RequestLog.stage, RequestStore.enqueueRequest, List.length_append,
      List.length_singleton, writing] at hbalance ⊢
    -- a full buffer sheds one record, which is counted as dropped
    by_cases hfull : requestBufferMax ≤ L.store.requestBuffer.length
    · rw [if_pos hfull] at hlength ⊢
      omega
    · rw [if_neg hfull] at hlength ⊢
      omega
  buffersLast := by
    refine ⟨Shedding.length_push_le requestBufferMax_pos h.buffersLast.1 record, ?_⟩
    show Shedding.push requestBufferMax L.store.requestBuffer record = _
    rw [h.buffersLast.2]
    exact Shedding.push_rtake requestBufferMax_pos L.unflushed record
  batch_ne_nil := h.batch_ne_nil

/-- The buffer moves into a batch. -/
theorem beginFlush (h : Counted requests L) (hidle : L.phase f = .idle) :
    Counted requests (L.beginFlush f) where
  balance := by
    have hbatch : (if L.store.requestBuffer = [] then L.afterFlush f
        else .writing L.store.requestBuffer).batch = L.store.requestBuffer := by
      split
      · rename_i hnil
        rw [afterFlush_batch, hnil]
      · rfl
    -- an empty buffer starts no transaction; any other moves into the batch as a whole
    have hwriting : (L.beginFlush f).writing + (L.phase f).batch.length =
        L.writing + L.store.requestBuffer.length := by
      rw [← congrArg List.length hbatch]
      exact writing_setPhase { L with store := L.store.takeBuffer.2, unflushed := [] } f _
    rw [hidle, FlushPhase.batch_idle, List.length_nil] at hwriting
    have hbalance := h.balance
    show requests.length + L.enqueued.length = L.store.requests.length + 0 +
      L.store.droppedRequests + (L.beginFlush f).writing + L.lost.length
    omega
  buffersLast := ⟨Nat.zero_le _, (List.rtake_nil _).symm⟩
  batch_ne_nil := by
    refine setPhase_ne_nil h.batch_ne_nil ?_
    split
    · exact afterFlush_ne_nil L f
    · rename_i hne
      simpa using hne

/-- A batch is inserted, counted or lost. -/
theorem bulkLogRequests_balance (S : RequestStore) (records lost : List RequestRecord)
    (outcome : FlushOutcome) :
    (S.bulkLogRequests records outcome).requests.length +
        (S.bulkLogRequests records outcome).droppedRequests +
        (if outcome.losesBatch then lost ++ records else lost).length =
      S.requests.length + S.droppedRequests + lost.length + records.length := by
  cases outcome with
  | cancelled =>
      simp [RequestStore.bulkLogRequests, FlushOutcome.losesBatch]
      omega
  | write outcome =>
      cases outcome with
      | none =>
          simp [RequestStore.bulkLogRequests, FlushOutcome.losesBatch, WriteOutcome.isRaised]
          omega
      | some e =>
          cases he : e.dbFailure <;>
            simp [RequestStore.bulkLogRequests, FlushOutcome.losesBatch, WriteOutcome.isRaised,
              he] <;>
            omega

theorem bulkLogRequests_buffer (S : RequestStore) (records : List RequestRecord)
    (outcome : FlushOutcome) :
    (S.bulkLogRequests records outcome).requestBuffer = S.requestBuffer := by
  unfold RequestStore.bulkLogRequests
  split
  · rfl
  · split <;> rfl
  · rfl

/-- The transaction of a flush ends. -/
theorem endFlush (h : Counted requests L) {records : List RequestRecord}
    (hwriting : L.phase f = .writing records) (outcome : FlushOutcome) :
    Counted requests (L.endFlush f records outcome) where
  balance := by
    have hphase : (L.endFlush f records outcome).writing + (L.phase f).batch.length =
        L.writing + (L.afterFlush f).batch.length :=
      writing_setPhase
        { L with
          store := L.store.bulkLogRequests records outcome
          lost := if outcome.losesBatch then L.lost ++ records else L.lost } f _
    rw [afterFlush_batch, hwriting, FlushPhase.batch_writing, List.length_nil] at hphase
    have hbatch := bulkLogRequests_balance L.store records L.lost outcome
    have hbalance := h.balance
    show requests.length + L.enqueued.length =
      (L.store.bulkLogRequests records outcome).requests.length +
        (L.store.bulkLogRequests records outcome).requestBuffer.length +
        (L.store.bulkLogRequests records outcome).droppedRequests +
        (L.endFlush f records outcome).writing +
        (if outcome.losesBatch then L.lost ++ records else L.lost).length
    rw [bulkLogRequests_buffer]
    omega
  buffersLast := by
    show (L.store.bulkLogRequests records outcome).requestBuffer.length ≤ _ ∧
      (L.store.bulkLogRequests records outcome).requestBuffer = _
    rw [bulkLogRequests_buffer]
    exact h.buffersLast
  batch_ne_nil := setPhase_ne_nil h.batch_ne_nil (afterFlush_ne_nil L f)

theorem cancelLoop (h : Counted requests L) : Counted requests L.cancelLoop := by
  unfold RequestLog.cancelLoop
  split
  · rename_i hidle
    constructor
    · have hphase : (setPhase { L with stopping := true } .loop .ended).writing +
          (L.phase .loop).batch.length = L.writing + 0 :=
        writing_setPhase { L with stopping := true } .loop .ended
      rw [hidle, FlushPhase.batch_idle, List.length_nil] at hphase
      have hbalance := h.balance
      show requests.length + L.enqueued.length = L.store.requests.length +
        L.store.requestBuffer.length + L.store.droppedRequests +
        (setPhase { L with stopping := true } .loop .ended).writing + L.lost.length
      omega
    · exact h.buffersLast
    · exact setPhase_ne_nil h.batch_ne_nil (by simp)
  · exact ⟨h.balance, h.buffersLast, h.batch_ne_nil⟩

end Counted

/-! ### What a step does -/

theorem step_cases {op : Op} (h : L.step op = some L') :
    (∃ record, op = .enqueue record ∧ L' = L.stage record) ∨
    (∃ f, op = .flush f ∧ L.phase f = .idle ∧ L' = L.beginFlush f) ∨
    (∃ f outcome records, op = .settle f outcome ∧ L.phase f = .writing records ∧
      L' = L.endFlush f records outcome) ∨
    (op = .shutdown ∧ L' = L.cancelLoop) := by
  cases op with
  | enqueue record => exact Or.inl ⟨record, rfl, (Option.some.inj h).symm⟩
  | flush f =>
      obtain ⟨⟨hidle, -⟩, heq⟩ := Option.ite_none_right_eq_some.mp h
      exact Or.inr (Or.inl ⟨f, rfl, hidle, (Option.some.inj heq).symm⟩)
  | settle f outcome =>
      cases hphase : L.phase f with
      | writing records =>
          simp only [step, hphase] at h
          obtain ⟨-, heq⟩ := Option.ite_none_left_eq_some.mp h
          exact Or.inr (Or.inr (Or.inl
            ⟨f, outcome, records, rfl, hphase, (Option.some.inj heq).symm⟩))
      | idle | ended => simp [step, hphase] at h
  | shutdown =>
      obtain ⟨-, heq⟩ := Option.ite_none_left_eq_some.mp h
      exact Or.inr (Or.inr (Or.inr ⟨rfl, (Option.some.inj heq).symm⟩))

theorem Counted.step (h : Counted requests L) {op : Op} (hop : L.step op = some L') :
    Counted requests L' := by
  rcases step_cases hop with ⟨record, -, rfl⟩ | ⟨f, -, hidle, rfl⟩ |
    ⟨f, outcome, records, -, hwriting, rfl⟩ | ⟨-, rfl⟩
  · exact h.stage record
  · exact h.beginFlush hidle
  · exact h.endFlush hwriting outcome
  · exact h.cancelLoop

/-- A step loses records exactly when it is the end of a flush that loses its batch. -/
theorem step_lost (h : Counted requests L) {op : Op} (hop : L.step op = some L') :
    L'.lost = [] ↔ L.lost = [] ∧ op.losesBatch = false := by
  rcases step_cases hop with ⟨record, rfl, rfl⟩ | ⟨f, rfl, -, rfl⟩ |
    ⟨f, outcome, records, rfl, hwriting, rfl⟩ | ⟨rfl, rfl⟩
  · simp [Op.losesBatch, stage]
  · simp [Op.losesBatch, beginFlush, setPhase]
  -- a batch is never empty, so losing it shows in the list of the lost
  · have hne : records ≠ [] := by
      rintro rfl
      exact h.batch_ne_nil f hwriting
    cases hloses : outcome.losesBatch <;> simp [Op.losesBatch, endFlush, setPhase, hloses, hne]
  · unfold cancelLoop
    split <;> simp [Op.losesBatch, setPhase]

/-! ### Runs -/

theorem counted_of_run {ops : List Op} (h : Run (Steps step Any) (.init requests) ops L) :
    Counted requests L :=
  h.invariant (fun _ _ _ hcounted hstep => hcounted.step hstep.1) (.init requests)

/-- Over a run, no record is lost exactly when no flush loses its batch. -/
theorem lost_eq_nil_iff {ops : List Op} (h : Run (Steps step Any) (.init requests) ops L) :
    L.lost = [] ↔ ∀ op ∈ ops, op.losesBatch = false := by
  -- the induction over the run needs its start as a variable
  generalize hinit : RequestLog.init requests = L₀ at h
  induction h with
  | nil => simp [← hinit, RequestLog.init]
  | snoc hrun hlast ih =>
      subst hinit
      rw [step_lost (counted_of_run hrun) hlast.1, ih]
      simp [or_imp, forall_and]

/-- **The conservation law of the request log.** In every run of enqueues and flushes, and in
every state of it in which no flush is in progress, the records ever enqueued are those
inserted, buffered and counted as dropped, exactly when no flush of the run was cancelled in
its transaction or raised an error that the store passes on. In every state, the buffer is within
its bound and holds the last records that no flush has taken. -/
theorem request_accounting {ops : List Op} (h : Run (Steps step Any) (.init requests) ops L) :
    (L.Quiet → (L.Balances requests ↔ ∀ op ∈ ops, op.losesBatch = false)) ∧ L.BuffersLast := by
  have hcounted := counted_of_run h
  refine ⟨fun hquiet => ?_, hcounted.buffersLast⟩
  rw [← lost_eq_nil_iff h, ← List.length_eq_zero_iff, Balances]
  have hbalance := hcounted.balance
  rw [writing_eq_zero hquiet] at hbalance
  omega

/-- A completed request. -/
def completed (sessionId : String) : RequestRecord :=
  ⟨1, "gpu", "api", "unknown", sessionId, 0, 2, some 200, 10, 20⟩

/-- The disk is full as the loop flushes; the shutdown drains what has come since. -/
def fullDisk : List Op :=
  [.enqueue (completed "a"), .flush .loop,
    .settle .loop (.write (some (.dbapiError (some .operationalError)))), .enqueue (completed "b"),
    .shutdown, .flush .drain, .settle .drain (.write none)]

theorem request_accounting_fullDisk :
    ∃ L, exec step (.init []) fullDisk = some L ∧ L.Balances [] ∧ L.BuffersLast := by
  have hview : (exec step (.init []) fullDisk).map (fun L => (L.phase .loop, L.phase .drain)) =
      some (.ended, .ended) := by
    decide +kernel
  obtain ⟨L, hexec, hphases⟩ := Option.map_eq_some_iff.mp hview
  obtain ⟨hloop, hdrain⟩ := Prod.mk.inj hphases
  have hquiet : L.Quiet := by
    intro f records
    cases f
    · simp [hloop]
    · simp [hdrain]
  obtain ⟨hbalances, hbuffer⟩ := request_accounting (run_any_of_exec hexec)
  exact ⟨L, hexec, (hbalances hquiet).mpr (by decide), hbuffer⟩

/-- The shutdown cancels the loop in its transaction, and finds nothing to drain. -/
def cancelledInTransaction : List Op :=
  [.enqueue (completed "a"), .flush .loop, .shutdown, .settle .loop .cancelled, .flush .drain]

/-- The record is in no place and in no count. -/
theorem cancelledInTransaction_unbalanced :
    ¬ ∀ (ops : List Op) (L : RequestLog), Run (Steps step Any) (.init []) ops L → L.Quiet →
      L.Balances [] := by
  intro hclaim
  have hview : (exec step (.init []) cancelledInTransaction).map (fun L =>
      (L.phase .loop, L.phase .drain, L.enqueued.length, L.store.requests.length +
        L.store.requestBuffer.length + L.store.droppedRequests)) =
      some (.ended, .ended, 1, 0) := by
    decide +kernel
  obtain ⟨L, hexec, hL⟩ := Option.map_eq_some_iff.mp hview
  obtain ⟨hloop, hL⟩ := Prod.mk.inj hL
  obtain ⟨hdrain, hL⟩ := Prod.mk.inj hL
  obtain ⟨henqueued, hstore⟩ := Prod.mk.inj hL
  have hquiet : L.Quiet := by
    intro f records
    cases f
    · simp [hloop]
    · simp [hdrain]
  have hbalances := hclaim _ L (run_any_of_exec hexec) hquiet
  rw [Balances, henqueued, hstore] at hbalances
  exact absurd hbalances (by decide)

end RequestLog

end Relay
