import Relay.Library.Runs

/-!
# Relay.Transport.Tunnel

**The WebSocket tunnel** (`read_client` and `tunnel`). `read_client` moves the client's frames
into `client_q`, and at the close sets `disconnected` and puts the sentinel behind the last
frame. The pump `client_to_target` takes them out again and sends them to the target. Only the
order of its two tests decides whether a queued frame survives the close: the pump breaks when
`disconnected` is set, also where it has just taken a frame.

What the client still has to deliver is one stream, `Tunnel.stream`: reading does not change
it, and the pump takes its head. From this follows that nothing is reordered or repeated
(`Tunnel.sent_isPrefix`), and exactly when nothing is lost (`Tunnel.delivers_iff`).
-/

namespace Relay

open Runs

/-- A frame of a WebSocket connection. -/
inductive Frame where
  | text (data : String)
  | binary (data : List UInt8)
  deriving Repr, DecidableEq

/-- A `websocket.receive` message: a key that is absent is `none`. -/
structure WsMessage where
  bytes : Option (List UInt8) := none
  text : Option String := none
  deriving Repr, DecidableEq

/-- The message in which the server hands over a frame. -/
def Frame.toMessage : Frame → WsMessage
  | .text data => { text := some data }
  | .binary data => { bytes := some data }

/-- What `client_to_target` sends for a message. -/
def WsMessage.frame? (message : WsMessage) : Option Frame :=
  match message.bytes, message.text with
  | some data, _ => some (.binary data)
  | none, some data => some (.text data)
  | none, none => none

@[simp] theorem Frame.frame?_toMessage (f : Frame) : f.toMessage.frame? = some f := by
  cases f <;> rfl

/-- An item of `client_q`. -/
inductive ClientItem where
  | message (m : WsMessage)
  | sentinel
  deriving Repr, DecidableEq

/-- The frame an item carries. -/
def ClientItem.frame? : ClientItem → Option Frame
  | .message m => m.frame?
  | .sentinel => none

def ClientItem.ofFrame (f : Frame) : ClientItem := .message f.toMessage

@[simp] theorem ClientItem.frame?_ofFrame (f : Frame) : (ofFrame f).frame? = some f :=
  f.frame?_toMessage

@[simp] theorem ClientItem.frame?_sentinel : frame? .sentinel = none := rfl

/-- Where the tunnel stands. -/
inductive TunnelPhase where
  | connecting
  | pumping
  | ended
  deriving Repr, DecidableEq

/-- A connection between its acceptance and the end of its tunnel. -/
structure Tunnel where
  /-- What the client has sent, or sends before it closes, and `read_client` has not read. -/
  inbound : List Frame
  /-- The client has closed its side, with everything sent. -/
  closed : Bool := false
  clientQ : List ClientItem := []
  disconnected : Bool := false
  phase : TunnelPhase := .connecting
  /-- The frame in `client_to_target`'s pending `target.send`. -/
  sending : Option Frame := none
  /-- The frames whose `target.send` went through. -/
  sent : List Frame := []
  /-- The frames sent to the client. -/
  returned : List Frame := []
  clientToTargetDone : Bool := false
  targetToClientDone : Bool := false
  deriving Repr, DecidableEq

inductive TunnelOp where
  /-- The client closes. -/
  | close
  /-- `read_client` reads a frame. -/
  | readFrame
  /-- `read_client` reads the close. -/
  | readDisconnect
  /-- `connect` returns, and the two pumps start. -/
  | connected
  /-- `client_to_target` takes an item out of `client_q`. -/
  | take
  /-- Its `target.send` returns. -/
  | targetAccepts
  /-- `target_to_client` has a frame for the client; the send raises when it is not `delivered`. -/
  | targetFrame (f : Frame) (delivered : Bool)
  /-- `tunnel` cancels the pump that is left. -/
  | finish
  deriving Repr, DecidableEq

/-- The operations that neither move a frame towards the target nor end the tunnel. -/
def TunnelOp.isQuiet : TunnelOp → Bool
  | .take => false
  | .targetAccepts => false
  | .finish => false
  | _ => true

namespace Tunnel

variable {t t' : Tunnel} {frames : List Frame} {op : TunnelOp}

def init (frames : List Frame) : Tunnel := { inbound := frames }

/-- One turn of `client_to_target`, with the rest of `client_q`. -/
def clientToTarget (t : Tunnel) (item : ClientItem) (rest : List ClientItem) : Tunnel :=
  if item = .sentinel ∨ t.disconnected = true then
    { t with clientQ := rest, clientToTargetDone := true }
  else
    { t with clientQ := rest, sending := item.frame? }

/-- One turn of `target_to_client`. -/
def targetToClient (t : Tunnel) (f : Frame) (delivered : Bool) : Tunnel :=
  if delivered then
    { t with returned := t.returned ++ [f], targetToClientDone := t.disconnected }
  else
    { t with targetToClientDone := true }

def step (t : Tunnel) : TunnelOp → Option Tunnel
  | .close => some { t with closed := true }
  | .readFrame =>
      match t.inbound with
      | [] => none
      | f :: inbound =>
          if t.disconnected then none
          else some { t with inbound := inbound, clientQ := t.clientQ ++ [.ofFrame f] }
  | .readDisconnect =>
      if t.closed ∧ t.inbound = [] ∧ ¬ t.disconnected then
        some { t with disconnected := true, clientQ := t.clientQ ++ [.sentinel] }
      else none
  | .connected => if t.phase = .connecting then some { t with phase := .pumping } else none
  | .take =>
      match t.clientQ with
      | [] => none
      | item :: rest =>
          if t.phase = .pumping ∧ t.sending = none ∧ ¬ t.clientToTargetDone then
            some (t.clientToTarget item rest)
          else none
  | .targetAccepts =>
      match t.sending with
      | none => none
      | some f =>
          if t.phase = .pumping then some { t with sending := none, sent := t.sent ++ [f] }
          else none
  | .targetFrame f delivered =>
      -- a send fails for a client that has closed
      if t.phase = .pumping ∧ ¬ t.targetToClientDone ∧ (delivered ∨ t.closed) then
        some (t.targetToClient f delivered)
      else none
  | .finish =>
      -- FIRST_COMPLETED
      if t.phase = .pumping ∧ (t.clientToTargetDone ∨ t.targetToClientDone) then
        some { t with phase := .ended }
      else none

/-! ### The stream of the client -/

/-- What `client_to_target` is still to take. -/
def stream (t : Tunnel) : List ClientItem :=
  if t.disconnected then t.clientQ
  else t.clientQ ++ (t.inbound.map .ofFrame ++ [.sentinel])

/-- The client's frames ahead of the pump. -/
def ahead (t : Tunnel) : List Frame := t.stream.filterMap ClientItem.frame?

/-- What the operations of `read_client` and the pumps keep. -/
structure Flow (frames : List Frame) (t : Tunnel) : Prop where
  conserved : t.clientToTargetDone = false → t.sent ++ t.sending.toList ++ t.ahead = frames
  stopped : t.clientToTargetDone = true → t.sending = none ∧ t.sent <+: frames
  stream_eq : t.stream = [] ∨ t.stream = t.ahead.map .ofFrame ++ [.sentinel]

theorem ahead_of_stream {fs : List Frame} (h : t.stream = fs.map .ofFrame ++ [.sentinel]) :
    t.ahead = fs := by
  have hsome : ClientItem.frame? ∘ ClientItem.ofFrame = some :=
    funext ClientItem.frame?_ofFrame
  rw [ahead, h, List.filterMap_append, List.filterMap_map, hsome, List.filterMap_some]
  exact List.append_nil fs

theorem Flow.init (frames : List Frame) : Flow frames (Tunnel.init frames) := by
  have hstream : (Tunnel.init frames).stream = frames.map .ofFrame ++ [.sentinel] := rfl
  have hahead := ahead_of_stream hstream
  refine ⟨fun _ => ?_, fun h => absurd h Bool.false_ne_true, Or.inr ?_⟩
  · rw [hahead]
    rfl
  · rw [hahead, hstream]

/-- `t'` differs from `t` in neither the stream nor what `client_to_target` has done. -/
structure SameFlow (t t' : Tunnel) : Prop where
  ended : t'.phase = .ended ↔ t.phase = .ended
  stream : t'.stream = t.stream
  sent : t'.sent = t.sent
  sending : t'.sending = t.sending
  done : t'.clientToTargetDone = t.clientToTargetDone

/-- The pump takes `item`. -/
structure Takes (t : Tunnel) (item : ClientItem) (t' : Tunnel) : Prop where
  phase : t.phase = .pumping
  idle : t.sending = none
  running : t.clientToTargetDone = false
  phase_eq : t'.phase = .pumping
  stream : t.stream = item :: t'.stream
  sent : t'.sent = t.sent
  next : t'.clientToTargetDone = true ∧ t'.sending = none ∧
      (item = .sentinel ∨ t.disconnected = true) ∨
    t'.clientToTargetDone = false ∧ t'.sending = item.frame? ∧ item ≠ .sentinel ∧
      t.disconnected = false

theorem stream_readFrame {f : Frame} {inbound : List Frame} (hin : t.inbound = f :: inbound)
    (hdisc : t.disconnected = false) :
    stream { t with inbound := inbound, clientQ := t.clientQ ++ [.ofFrame f] } = t.stream := by
  simp [stream, hin, hdisc]

theorem stream_readDisconnect (hin : t.inbound = []) (hdisc : t.disconnected = false) :
    stream { t with disconnected := true, clientQ := t.clientQ ++ [.sentinel] } = t.stream := by
  simp [stream, hin, hdisc]

theorem takes_clientToTarget {item : ClientItem} {rest : List ClientItem}
    (hq : t.clientQ = item :: rest) (hphase : t.phase = .pumping) (hidle : t.sending = none)
    (hrunning : t.clientToTargetDone = false) : t.Takes item (t.clientToTarget item rest) := by
  -- the stream does not tell whether the pump sends the item or breaks
  have hstream : t.stream = item :: (t.clientToTarget item rest).stream := by
    simp only [stream, hq, clientToTarget]
    split <;> split <;> rfl
  refine ⟨hphase, hidle, hrunning, ?_, hstream, ?_, ?_⟩
  · unfold clientToTarget
    split <;> exact hphase
  · unfold clientToTarget
    split <;> rfl
  · unfold clientToTarget
    split
    · rename_i hbreak
      exact Or.inl ⟨rfl, hidle, hbreak⟩
    · rename_i hgo
      rw [not_or, Bool.not_eq_true] at hgo
      exact Or.inr ⟨hrunning, rfl, hgo.1, hgo.2⟩

theorem targetToClient_sameFlow (t : Tunnel) (f : Frame) (delivered : Bool) :
    t.SameFlow (t.targetToClient f delivered) := by
  unfold targetToClient
  split <;> exact ⟨Iff.rfl, rfl, rfl, rfl, rfl⟩

/-- What an operation can do. -/
theorem step_cases (h : t.step op = some t') :
    (op.isQuiet = true ∧ t.SameFlow t') ∨
    (op = .take ∧ ∃ item, t.Takes item t') ∨
    (op = .targetAccepts ∧ t.phase = .pumping ∧ ∃ f, t.sending = some f ∧
      t' = { t with sending := none, sent := t.sent ++ [f] }) ∨
    (op = .finish ∧ t.phase = .pumping ∧ t' = { t with phase := .ended }) := by
  cases op with
  | close =>
      obtain rfl := Option.some.inj h
      exact Or.inl ⟨rfl, Iff.rfl, rfl, rfl, rfl, rfl⟩
  | readFrame =>
      simp only [step] at h
      split at h
      · cases h
      · rename_i f inbound hin
        obtain ⟨hdisc, h⟩ := Option.ite_none_left_eq_some.mp h
        obtain rfl := Option.some.inj h
        rw [Bool.not_eq_true] at hdisc
        exact Or.inl ⟨rfl, Iff.rfl, stream_readFrame hin hdisc, rfl, rfl, rfl⟩
  | readDisconnect =>
      obtain ⟨⟨-, hin, hdisc⟩, h⟩ := Option.ite_none_right_eq_some.mp h
      obtain rfl := Option.some.inj h
      rw [Bool.not_eq_true] at hdisc
      exact Or.inl ⟨rfl, Iff.rfl, stream_readDisconnect hin hdisc, rfl, rfl, rfl⟩
  | connected =>
      obtain ⟨hphase, h⟩ := Option.ite_none_right_eq_some.mp h
      obtain rfl := Option.some.inj h
      exact Or.inl ⟨rfl, by simp [hphase], rfl, rfl, rfl, rfl⟩
  | take =>
      simp only [step] at h
      split at h
      · cases h
      · rename_i item rest hq
        obtain ⟨⟨hphase, hidle, hrunning⟩, h⟩ := Option.ite_none_right_eq_some.mp h
        obtain rfl := Option.some.inj h
        rw [Bool.not_eq_true] at hrunning
        exact Or.inr (Or.inl ⟨rfl, item, takes_clientToTarget hq hphase hidle hrunning⟩)
  | targetAccepts =>
      simp only [step] at h
      split at h
      · cases h
      · rename_i f hsending
        obtain ⟨hphase, h⟩ := Option.ite_none_right_eq_some.mp h
        obtain rfl := Option.some.inj h
        exact Or.inr (Or.inr (Or.inl ⟨rfl, hphase, f, hsending, rfl⟩))
  | targetFrame f delivered =>
      obtain ⟨-, h⟩ := Option.ite_none_right_eq_some.mp h
      obtain rfl := Option.some.inj h
      exact Or.inl ⟨rfl, targetToClient_sameFlow t f delivered⟩
  | finish =>
      obtain ⟨⟨hphase, -⟩, h⟩ := Option.ite_none_right_eq_some.mp h
      obtain rfl := Option.some.inj h
      exact Or.inr (Or.inr (Or.inr ⟨rfl, hphase, rfl⟩))

/-! ### What the pump keeps -/

theorem SameFlow.ahead_eq (h : t.SameFlow t') : t'.ahead = t.ahead := by
  unfold ahead
  rw [h.stream]

theorem SameFlow.flow (hsame : t.SameFlow t') (h : Flow frames t) : Flow frames t' := by
  refine ⟨?_, ?_, ?_⟩
  · rw [hsame.done, hsame.sent, hsame.sending, hsame.ahead_eq]
    exact h.conserved
  · rw [hsame.done, hsame.sent, hsame.sending]
    exact h.stopped
  · rw [hsame.stream, hsame.ahead_eq]
    exact h.stream_eq

/-- The sentinel comes last. -/
theorem Flow.head_cases {item : ClientItem} {rest : List ClientItem} (h : Flow frames t)
    (hstream : t.stream = item :: rest) :
    (item = .sentinel ∧ rest = [] ∧ t.ahead = []) ∨
    ∃ f fs, item = .ofFrame f ∧ rest = fs.map .ofFrame ++ [.sentinel] ∧ t.ahead = f :: fs := by
  rcases h.stream_eq with hnil | heq
  · rw [hnil] at hstream
    cases hstream
  · rw [hstream] at heq
    cases hahead : t.ahead with
    | nil =>
        rw [hahead] at heq
        obtain ⟨rfl, rfl⟩ := List.cons.inj heq
        exact Or.inl ⟨rfl, rfl, rfl⟩
    | cons f fs =>
        rw [hahead] at heq
        obtain ⟨rfl, rfl⟩ := List.cons.inj heq
        exact Or.inr ⟨f, fs, rfl, rfl, rfl⟩

theorem Takes.flow {item : ClientItem} (htakes : t.Takes item t') (h : Flow frames t) :
    Flow frames t' := by
  have hconserved := h.conserved htakes.running
  rw [htakes.idle, Option.toList_none, List.append_nil] at hconserved
  rcases h.head_cases htakes.stream with ⟨rfl, hrest, hahead⟩ | ⟨f, fs, rfl, hrest, hahead⟩
  · -- the sentinel: the pump stops behind the last frame
    rcases htakes.next with ⟨hdone, hsending, -⟩ | ⟨-, -, hne, -⟩
    · refine ⟨fun hrunning => ?_, fun _ => ⟨hsending, ?_⟩, Or.inl hrest⟩
      · rw [hdone] at hrunning
        cases hrunning
      · rw [htakes.sent, ← hconserved]
        exact List.prefix_append _ _
    · exact absurd rfl hne
  · have hnext := ahead_of_stream hrest
    have hstream : t'.stream = [] ∨ t'.stream = t'.ahead.map .ofFrame ++ [.sentinel] := by
      rw [hnext]
      exact Or.inr hrest
    rcases htakes.next with ⟨hdone, hsending, -⟩ | ⟨hrunning, hsending, -, -⟩
    · -- the close has been noticed: the frame is dropped
      refine ⟨fun hrunning => ?_, fun _ => ⟨hsending, ?_⟩, hstream⟩
      · rw [hdone] at hrunning
        cases hrunning
      · rw [htakes.sent, ← hconserved]
        exact List.prefix_append _ _
    · refine ⟨fun _ => ?_, fun hdone => ?_, hstream⟩
      · rw [htakes.sent, hsending, hnext, ← hconserved, hahead]
        simp
      · rw [hrunning] at hdone
        cases hdone

theorem Flow.targetAccepts {f : Frame} (h : Flow frames t) (hsending : t.sending = some f) :
    Flow frames { t with sending := none, sent := t.sent ++ [f] } := by
  refine ⟨fun hrunning => ?_, fun hdone => ?_, h.stream_eq⟩
  · have hconserved := h.conserved hrunning
    rw [hsending] at hconserved
    show t.sent ++ [f] ++ [] ++ t.ahead = frames
    rw [List.append_nil]
    exact hconserved
  · have hidle := (h.stopped hdone).1
    rw [hsending] at hidle
    cases hidle

theorem Flow.step (h : Flow frames t) (hop : t.step op = some t') : Flow frames t' := by
  rcases step_cases hop with ⟨-, hsame⟩ | ⟨-, item, htakes⟩ | ⟨-, -, f, hsending, rfl⟩ |
    ⟨-, -, rfl⟩
  · exact hsame.flow h
  · exact htakes.flow h
  · exact h.targetAccepts hsending
  · exact ⟨h.conserved, h.stopped, h.stream_eq⟩

/-- The target gets a beginning of what the client sent, in order and each frame once. -/
theorem Flow.sent_isPrefix (h : Flow frames t) : t.sent <+: frames := by
  cases hdone : t.clientToTargetDone with
  | true => exact (h.stopped hdone).2
  | false =>
      rw [← h.conserved hdone, List.append_assoc]
      exact List.prefix_append _ _

theorem sent_isPrefix {ops : List TunnelOp} (h : Run (Steps step Any) (Tunnel.init frames) ops t) :
    t.sent <+: frames :=
  (h.invariant (I := Flow frames) (fun _ _ _ hflow hop => hflow.step hop.1)
    (.init frames)).sent_isPrefix

/-! ### When no frame is lost -/

/-- Where the pump or the tunnel has ended, every frame has been sent. -/
def Delivered (frames : List Frame) (t : Tunnel) : Prop :=
  t.clientToTargetDone = true ∨ t.phase = .ended → t.sent = frames

/-- The step loses no frame: `client_to_target` takes no frame once the close has been noticed,
and the tunnel does not cut it off in front of a frame. -/
def LosesNothing (t : Tunnel) : TunnelOp → Prop
  | .take => t.disconnected = true → t.ahead = []
  | .finish => t.clientToTargetDone = true ∨ t.sending = none ∧ t.ahead = []
  | _ => True

instance (t : Tunnel) (op : TunnelOp) : Decidable (t.LosesNothing op) :=
  match op with
  | .take => inferInstanceAs (Decidable (_ → _))
  | .finish => inferInstanceAs (Decidable (_ ∨ _))
  | .close => .isTrue trivial
  | .readFrame => .isTrue trivial
  | .readDisconnect => .isTrue trivial
  | .connected => .isTrue trivial
  | .targetAccepts => .isTrue trivial
  | .targetFrame _ _ => .isTrue trivial

theorem SameFlow.delivered_iff (h : t.SameFlow t') : Delivered frames t' ↔ Delivered frames t := by
  rw [Delivered, h.done, h.ended, h.sent, Delivered]

theorem losesNothing_of_isQuiet (h : op.isQuiet = true) : t.LosesNothing op := by
  cases op <;> trivial

theorem Takes.delivered_iff {item : ClientItem} (htakes : t.Takes item t') (h : Flow frames t) :
    Delivered frames t' ↔ t.LosesNothing .take := by
  have hconserved := h.conserved htakes.running
  rw [htakes.idle, Option.toList_none, List.append_nil] at hconserved
  have hsent : t'.sent = frames ↔ t.ahead = [] := by
    rw [htakes.sent, ← hconserved, List.self_eq_append_right]
  rcases htakes.next with ⟨hdone, -, hbreak⟩ | ⟨hrunning, -, -, hdisc⟩
  -- the pump has broken: nothing is lost when it was in front of the sentinel
  · have hdelivered : Delivered frames t' ↔ t.ahead = [] := by
      simp [Delivered, hdone, hsent]
    rw [hdelivered]
    refine ⟨fun hnil _ => hnil, fun hok => ?_⟩
    rcases hbreak with rfl | hdisc
    · rcases h.head_cases htakes.stream with ⟨-, -, hahead⟩ | ⟨f, fs, hitem, -, -⟩
      · exact hahead
      · cases hitem
    · exact hok hdisc
  · refine iff_of_true ?_ fun h => ?_
    · simp [Delivered, hrunning, htakes.phase_eq]
    · rw [hdisc] at h
      cases h

theorem delivered_step_iff (h : Flow frames t) (hI : Delivered frames t)
    (hop : t.step op = some t') : Delivered frames t' ↔ t.LosesNothing op := by
  rcases step_cases hop with ⟨hquiet, hsame⟩ | ⟨rfl, item, htakes⟩ |
    ⟨rfl, hphase, f, hsending, rfl⟩ | ⟨rfl, hphase, rfl⟩
  · exact iff_of_true (hsame.delivered_iff.mpr hI) (losesNothing_of_isQuiet hquiet)
  · exact htakes.delivered_iff h
  · refine iff_of_true ?_ trivial
    rintro (hdone | hended)
    · have hidle := (h.stopped hdone).1
      rw [hsending] at hidle
      cases hidle
    · rw [hphase] at hended
      cases hended
  · cases hdone : t.clientToTargetDone with
    | true =>
        refine iff_of_true (fun _ => hI (Or.inl hdone)) (Or.inl hdone)
    | false =>
        have hconserved := h.conserved hdone
        simp only [Delivered, LosesNothing, hdone, ← hconserved]
        simp [List.append_assoc]

theorem delivered_broken (h : Flow frames t) (hI : ¬ Delivered frames t)
    (hop : t.step op = some t') : ¬ Delivered frames t' := by
  rcases step_cases hop with ⟨-, hsame⟩ | ⟨-, item, htakes⟩ | ⟨-, hphase, f, hsending, rfl⟩ |
    ⟨-, -, rfl⟩
  · exact fun h' => hI (hsame.delivered_iff.mp h')
  · refine absurd ?_ hI
    simp [Delivered, htakes.running, htakes.phase]
  · refine absurd ?_ hI
    rintro (hdone | hended)
    · have hidle := (h.stopped hdone).1
      rw [hsending] at hidle
      cases hidle
    · rw [hphase] at hended
      cases hended
  · exact fun h' => hI fun _ => h' (Or.inr rfl)

/-- **When the tunnel loses no frame.** When the tunnel has ended, the frames sent to the target
are the client's, in order and with their kinds, exactly when `client_to_target` takes no frame
out of `client_q` once `disconnected` is set, and is not cancelled with a frame in front of it. -/
theorem delivers_iff {ops : List TunnelOp} (h : Run (Steps step Any) (Tunnel.init frames) ops t)
    (hended : t.phase = .ended) :
    t.sent = frames ↔ Run (Steps step LosesNothing) (Tunnel.init frames) ops t := by
  have hinit : Delivered frames (Tunnel.init frames) := by
    rintro (h | h) <;> cases h
  have hlast : Delivered frames t ↔ Run (Steps step LosesNothing) (Tunnel.init frames) ops t :=
    last_iff (fun _ _ _ hflow hop => Flow.step hflow hop) (fun _ _ _ => delivered_broken)
      (fun _ _ _ => delivered_step_iff) h (.init frames) hinit
  rw [← hlast]
  exact ⟨fun hsent _ => hsent, fun hdelivered => hdelivered (Or.inr hended)⟩

/-- The client sends a text, gets the answer and closes. -/
def answeredThenClosed : List TunnelOp :=
  [.connected, .readFrame, .take, .targetAccepts, .targetFrame (.text "pong") true, .close,
    .readDisconnect, .take, .finish]

theorem delivers_iff_answeredThenClosed :
    ∃ t, exec step (Tunnel.init [.text "ping"]) answeredThenClosed = some t ∧
      t.phase = .ended ∧ t.sent = [.text "ping"] := by
  have hview : (exec (guarded step LosesNothing) (Tunnel.init [.text "ping"])
      answeredThenClosed).map phase = some .ended := by
    decide +kernel
  obtain ⟨t, hexec, hended⟩ := Option.map_eq_some_iff.mp hview
  have hrun := run_of_exec_guarded hexec
  have hany : Run (Steps step Any) (Tunnel.init [.text "ping"]) answeredThenClosed t :=
    run_any_of_exec (exec_of_run hrun)
  exact ⟨t, exec_of_run hrun, hended, (delivers_iff hany hended).mpr hrun⟩

/-- The client sends a text and closes while `connect` is under way. -/
def closedBeforeConnected : List TunnelOp :=
  [.close, .readFrame, .readDisconnect, .connected, .take, .finish]

theorem delivers_counterexample :
    ¬ ∀ (frames : List Frame) (ops : List TunnelOp) (t : Tunnel),
      Run (Steps step Any) (Tunnel.init frames) ops t → t.phase = .ended → t.sent = frames := by
  intro hclaim
  have hview : (exec step (Tunnel.init [.text "ping"]) closedBeforeConnected).map
      (fun t => (t.phase, t.sent)) = some (.ended, []) := by
    decide +kernel
  obtain ⟨t, hexec, ht⟩ := Option.map_eq_some_iff.mp hview
  obtain ⟨hended, hsent⟩ := Prod.mk.inj ht
  have hall := hclaim _ _ t (run_any_of_exec hexec) hended
  rw [hsent] at hall
  cases hall

end Tunnel

end Relay
