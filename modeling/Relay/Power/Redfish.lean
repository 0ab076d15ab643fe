import Relay.Config.Build
import Relay.Library.Counting
import Relay.Library.Runs
import Relay.Server.Basic

/-!
# Relay.Power.Redfish

**The Redfish backend over an unreliable network** (`relay/power/ipmi.py` and
`relay/power/redfish.py`). A management call sends its request up to `max_attempts` times, until it
is answered. Any attempt may get lost before the BMC has handled it, or after; another coroutine
may send its requests in between, and the machine changes by itself. What the BMC does with a
request is its own affair (`handle`).

`answers_earned` is what a caller may conclude: a reset that the backend reports as accepted was
handled by the BMC during the call, a power state other than `UNKNOWN` is one that the BMC gave
during the call, and no call takes more than `max_attempts` attempts. A reset that is reported as
failed may have been handled all the same (`retriedReset`).
-/

namespace Relay.Redfish

open Runs Counting

/-! ### Requests and responses -/

inductive Method
  | get
  | post
  deriving DecidableEq, Repr

/-- A request to the BMC; `resetType` is what its JSON body has. -/
structure Request where
  method : Method
  url : String
  resetType : Option String
  deriving DecidableEq, Repr

/-- What `response.json()` gives: an object, with its `PowerState` if that is a string, or
something else. -/
inductive Json
  | object (powerState : Option String)
  | other
  deriving DecidableEq, Repr

/-- A response; `json` is `none` when the body is no JSON. -/
structure Response where
  statusCode : Nat
  json : Option Json
  deriving DecidableEq, Repr

/-- `BmcClient`, without its credentials. It makes at least one attempt. -/
structure BmcClient where
  baseUrl : String
  maxAttempts : Nat
  one_le_maxAttempts : 1 ≤ maxAttempts
  deriving DecidableEq, Repr

theorem one_le_toNat_max (n : Int) : 1 ≤ (max 1 n).toNat := by
  have hle : 1 ≤ max 1 n := Int.le_max_left 1 n
  omega

/-- `BmcClient.__init__`. -/
def BmcClient.init (baseUrl : String) (maxAttempts : Int) : BmcClient where
  baseUrl := Topology.rstripSlash baseUrl
  maxAttempts := (max 1 maxAttempts).toNat
  one_le_maxAttempts := one_le_toNat_max maxAttempts

/-- The URL of a management call. -/
def BmcClient.url (client : BmcClient) (path : String) : String :=
  client.baseUrl ++ "/" ++ String.ofList (path.toList.dropWhile (· = '/'))

/-- `RedfishBackend`. -/
structure Backend where
  bmc : BmcClient
  systemPath : String
  deriving DecidableEq, Repr

/-- `RedfishBackend.__init__`; `BmcClient` makes two attempts by default. -/
def Backend.init (host : String) (baseUrl : Option String) (systemPath : String) : Backend where
  bmc := .init ((baseUrl.filter (· ≠ "")).getD ("https://" ++ host)) 2
  systemPath := systemPath

/-- The methods of `PowerBackend`. -/
inductive PowerCall
  | powerOn
  | powerOff
  | powerState
  deriving DecidableEq, Repr

/-- The reset that a call sends; a power-off is graceful. -/
def PowerCall.resetType : PowerCall → Option String
  | .powerOn => some "On"
  | .powerOff => some "GracefulShutdown"
  | .powerState => none

/-- The request of a call: `_send_reset`, or `_read_power_state`. -/
def Backend.request (backend : Backend) (call : PowerCall) : Request :=
  match call.resetType with
  | some resetType =>
      { method := .post
        url := backend.bmc.url (backend.systemPath ++ "/Actions/ComputerSystem.Reset")
        resetType := some resetType }
  | none => { method := .get, url := backend.bmc.url backend.systemPath, resetType := none }

/-- `_send_reset`, given what the call has returned. -/
def sendReset (response : Option Response) : Bool :=
  response.any fun r => r.statusCode ∈ [200, 202, 204]

/-- `_read_power_state`, given what the call has returned. -/
def readPowerState (response : Option Response) : PowerState :=
  match response with
  | none => .unknown
  | some r =>
      if r.statusCode ≠ 200 then .unknown
      else
        match r.json with
        | some (.object (some "On")) => .on
        | some (.object (some "Off")) => .off
        | _ => .unknown

/-! ### Calls over the network -/

/-- What becomes of an attempt: it is answered; the answer or the request is lost, which is a
`TransportError`; or it raises another exception. -/
inductive Fate
  | answered
  | answerLost
  | requestLost
  | raised (handled : Bool)
  deriving DecidableEq, Repr

/-- The BMC has handled the request. -/
def Fate.isHandled : Fate → Bool
  | .answered | .answerLost => true
  | .requestLost => false
  | .raised handled => handled

/-- Where a call is: it sends its request for the `attempt`-th time, has returned, or has
raised. -/
inductive Phase
  | sending (attempt : Nat)
  | returned (response : Option Response)
  | raised
  deriving DecidableEq, Repr

/-- A call under way. `made` counts its attempts so far. -/
structure Pending where
  call : PowerCall
  phase : Phase
  made : Nat
  deriving DecidableEq, Repr

/-- `BmcClient.request` after an attempt: `response` is what the BMC has answered, if it got the
request. -/
def afterAttempt (maxAttempts attempt : Nat) (response : Response) : Fate → Phase
  | .answered => .returned (some response)
  | .answerLost | .requestLost =>
      if attempt < maxAttempts then .sending (attempt + 1) else .returned none
  | .raised _ => .raised

/-- The BMC has handled the request of a call. -/
structure Execution (σ : Type) where
  call : Nat
  before : σ
  request : Request
  response : Response

/-- The backend, its calls, and the BMC. `executions` is a history variable. -/
structure Link (σ : Type) where
  bmc : σ
  calls : List Pending
  executions : List (Execution σ)

/-- What happens. -/
inductive Op (σ : Type)
  | start (call : PowerCall)
  | attempt (i : Nat) (fate : Fate)
  /-- The machine changes by itself, or someone else changes it. -/
  | outside (bmc : σ)

namespace Link

variable {σ : Type} (backend : Backend) (handle : σ → Request → σ × Response)

def init (bmc : σ) : Link σ := ⟨bmc, [], []⟩

/-- An attempt of the call with number `i`. -/
def attempt (L : Link σ) (i : Nat) (c : Pending) (k : Nat) (fate : Fate) : Link σ :=
  let request := backend.request c.call
  let result := handle L.bmc request
  { bmc := if fate.isHandled then result.1 else L.bmc
    calls := L.calls.set i
      { c with
        phase := afterAttempt backend.bmc.maxAttempts k result.2 fate
        made := c.made + 1 }
    executions := if fate.isHandled then L.executions ++ [⟨i, L.bmc, request, result.2⟩]
      else L.executions }

def step (L : Link σ) : Op σ → Option (Link σ)
  | .start call => some { L with calls := L.calls ++ [⟨call, .sending 1, 0⟩] }
  | .attempt i fate =>
      match L.calls[i]? with
      | none => none
      | some c =>
          match c.phase with
          | .sending k => some (L.attempt backend handle i c k fate)
          | .returned _ | .raised => none
  | .outside bmc => some { L with bmc := bmc }

/-! ### What is known of a call -/

/-- The executions of a call. -/
def executionsOf (L : Link σ) (i : Nat) : Nat := L.executions.countP (fun x => x.call = i)

/-- What holds of a call that has made so many attempts, by its phase: it has made no more than it
may, a response it has returned is one that the BMC gave to it, and without one all attempts were
used up. -/
def Earned (maxAttempts : Nat) (executions : List (Execution σ)) (i made : Nat) : Phase → Prop
  | .sending k => made + 1 = k ∧ k ≤ maxAttempts
  | .returned (some r) => made ≤ maxAttempts ∧ ∃ x ∈ executions, x.call = i ∧ x.response = r
  | .returned none => made = maxAttempts
  | .raised => made ≤ maxAttempts

/-- What holds of a link. -/
structure Sound (L : Link σ) : Prop where
  earned : ∀ i c, L.calls[i]? = some c →
    Earned backend.bmc.maxAttempts L.executions i c.made c.phase
  executionsOf_le : ∀ i c, L.calls[i]? = some c → L.executionsOf i ≤ c.made
  executions : ∀ x ∈ L.executions, x.response = (handle x.before x.request).2 ∧
    ∃ c, L.calls[x.call]? = some c ∧ x.request = backend.request c.call

variable {backend handle} {L L' : Link σ}

theorem Sound.init (bmc : σ) : Sound backend handle (init bmc) where
  earned := fun i c hc => absurd hc (by simp [Link.init])
  executionsOf_le := fun i c hc => absurd hc (by simp [Link.init])
  executions := fun x hx => absurd hx List.not_mem_nil

theorem Earned.mono {maxAttempts : Nat} {executions executions' : List (Execution σ)}
    {i made : Nat} {phase : Phase} (h : Earned maxAttempts executions i made phase)
    (hsub : executions ⊆ executions') : Earned maxAttempts executions' i made phase := by
  cases phase with
  | sending k => exact h
  | returned response =>
      cases response with
      | none => exact h
      | some r =>
          obtain ⟨hmade, x, hx, hxi⟩ := h
          exact ⟨hmade, x, hsub hx, hxi⟩
  | raised => exact h

theorem Earned.made_le {maxAttempts : Nat} {executions : List (Execution σ)} {i made : Nat}
    {phase : Phase} (h : Earned maxAttempts executions i made phase) : made ≤ maxAttempts := by
  cases phase with
  | sending k => exact Nat.le_trans (Nat.le_of_lt (Nat.lt_of_succ_le (Nat.le_of_eq h.1))) h.2
  | returned response =>
      cases response with
      | none => exact Nat.le_of_eq h
      | some r => exact h.1
  | raised => exact h

/-- An attempt leads on to a phase that is earned. -/
theorem earned_afterAttempt {maxAttempts : Nat} {executions : List (Execution σ)}
    {x : Execution σ} {fate : Fate} {k made : Nat} (hmade : made + 1 = k) (hk : k ≤ maxAttempts)
    (hx : fate.isHandled = true → x ∈ executions) :
    Earned maxAttempts executions x.call (made + 1)
      (afterAttempt maxAttempts k x.response fate) := by
  cases fate with
  | answered => exact ⟨hmade ▸ hk, x, hx rfl, rfl, rfl⟩
  | answerLost | requestLost =>
      unfold afterAttempt
      dsimp only
      split
      · exact ⟨by omega, by omega⟩
      · show made + 1 = maxAttempts
        omega
  | raised handled => exact hmade ▸ hk

theorem getElem?_snoc {α : Type} {l : List α} {a b : α} {i : Nat} (h : (l ++ [a])[i]? = some b) :
    l[i]? = some b ∨ i = l.length ∧ a = b := by
  rw [List.getElem?_append] at h
  split at h
  · exact Or.inl h
  · obtain ⟨hi, hb⟩ := List.getElem?_eq_some_iff.mp h
    rw [List.length_singleton] at hi
    exact Or.inr ⟨by omega, by simpa using hb⟩

/-- A call starts. -/
theorem Sound.start (h : Sound backend handle L) (call : PowerCall) :
    Sound backend handle { L with calls := L.calls ++ [⟨call, .sending 1, 0⟩] } where
  earned := by
    intro i c hc
    rcases getElem?_snoc hc with hold | ⟨-, rfl⟩
    · exact h.earned i c hold
    · exact ⟨rfl, backend.bmc.one_le_maxAttempts⟩
  executionsOf_le := by
    intro i c hc
    rcases getElem?_snoc hc with hold | ⟨hi, rfl⟩
    · exact h.executionsOf_le i c hold
    · -- the BMC has handled no request of a call that is new
      refine Nat.le_of_eq (List.countP_eq_zero.mpr fun x hx => ?_)
      obtain ⟨-, c, hcall, -⟩ := h.executions x hx
      obtain ⟨hlt, -⟩ := List.getElem?_eq_some_iff.mp hcall
      rw [decide_eq_true_eq, hi]
      exact Nat.ne_of_lt hlt
  executions := by
    intro x hx
    obtain ⟨hresponse, c, hcall, hrequest⟩ := h.executions x hx
    refine ⟨hresponse, c, ?_, hrequest⟩
    obtain ⟨hlt, -⟩ := List.getElem?_eq_some_iff.mp hcall
    rw [List.getElem?_append_left hlt, hcall]

/-- A call makes an attempt. -/
theorem Sound.attempt (h : Sound backend handle L) {i k : Nat} {c : Pending} (fate : Fate)
    (hc : L.calls[i]? = some c) (hphase : c.phase = .sending k) :
    Sound backend handle (L.attempt backend handle i c k fate) := by
  obtain ⟨hmade, hk⟩ : c.made + 1 = k ∧ k ≤ backend.bmc.maxAttempts := by
    have hearned := h.earned i c hc
    rwa [hphase] at hearned
  obtain ⟨hi, -⟩ := List.getElem?_eq_some_iff.mp hc
  have hsub : L.executions ⊆ (L.attempt backend handle i c k fate).executions := by
    intro x hx
    unfold Link.attempt
    dsimp only
    split
    · exact List.mem_append_left _ hx
    · exact hx
  have hcount : ∀ j, (L.attempt backend handle i c k fate).executionsOf j ≤
      L.executionsOf j + if i = j then 1 else 0 := by
    intro j
    unfold executionsOf Link.attempt
    dsimp only
    split
    · simp [List.countP_append, List.countP_singleton]
    · exact Nat.le_add_right _ _
  have hcalls : ∀ j c', (L.attempt backend handle i c k fate).calls[j]? = some c' →
      j = i ∧ c' = { c with
        phase := afterAttempt backend.bmc.maxAttempts k
          (handle L.bmc (backend.request c.call)).2 fate
        made := c.made + 1 } ∨ j ≠ i ∧ L.calls[j]? = some c' := by
    intro j c' hc'
    by_cases hj : j = i
    · subst hj
      refine Or.inl ⟨rfl, ?_⟩
      have hset := List.getElem?_set_self (a := { c with
        phase := afterAttempt backend.bmc.maxAttempts k
          (handle L.bmc (backend.request c.call)).2 fate
        made := c.made + 1 }) hi
      exact Option.some.inj (hc'.symm.trans hset)
    · refine Or.inr ⟨hj, ?_⟩
      rwa [Link.attempt, List.getElem?_set_ne (Ne.symm hj)] at hc'
  refine ⟨fun j c' hc' => ?_, fun j c' hc' => ?_, fun x hx => ?_⟩
  · rcases hcalls j c' hc' with ⟨rfl, rfl⟩ | ⟨-, hold⟩
    · refine earned_afterAttempt (x := ⟨j, L.bmc, backend.request c.call,
        (handle L.bmc (backend.request c.call)).2⟩) hmade hk fun hhandled => ?_
      show _ ∈ if fate.isHandled then _ else _
      rw [if_pos hhandled]
      exact List.mem_append_right _ (List.mem_singleton_self _)
    · exact (h.earned j c' hold).mono hsub
  · rcases hcalls j c' hc' with ⟨rfl, rfl⟩ | ⟨hj, hold⟩
    · have hle := h.executionsOf_le j c hc
      have hnew := hcount j
      rw [if_pos rfl] at hnew
      show _ ≤ c.made + 1
      omega
    · have hle := h.executionsOf_le j c' hold
      have hnew := hcount j
      rw [if_neg (Ne.symm hj)] at hnew
      omega
  · have hstays : ∀ (j : Nat) (c' : Pending), L.calls[j]? = some c' →
        ∃ c'', (L.attempt backend handle i c k fate).calls[j]? = some c'' ∧
          c''.call = c'.call := by
      intro j c' hc'
      by_cases hj : j = i
      · subst hj
        obtain rfl := Option.some.inj (hc.symm.trans hc')
        exact ⟨_, List.getElem?_set_self hi, rfl⟩
      · exact ⟨c', (List.getElem?_set_ne (Ne.symm hj)).trans hc', rfl⟩
    have hmem : x ∈ L.executions ∨ x = ⟨i, L.bmc, backend.request c.call,
        (handle L.bmc (backend.request c.call)).2⟩ := by
      unfold Link.attempt at hx
      dsimp only at hx
      split at hx
      · rcases List.mem_append.mp hx with hold | hnew
        · exact Or.inl hold
        · exact Or.inr (List.mem_singleton.mp hnew)
      · exact Or.inl hx
    rcases hmem with hold | rfl
    · obtain ⟨hresponse, c', hc', hrequest⟩ := h.executions x hold
      obtain ⟨c'', hc'', hcall⟩ := hstays x.call c' hc'
      exact ⟨hresponse, c'', hc'', by rw [hrequest, hcall]⟩
    · obtain ⟨c'', hc'', hcall⟩ := hstays i c hc
      exact ⟨rfl, c'', hc'', by rw [hcall]⟩

/-- **Step lemma.** -/
theorem Sound.step (h : Sound backend handle L) {op : Op σ}
    (hstep : L.step backend handle op = some L') : Sound backend handle L' := by
  cases op with
  | start call =>
      obtain rfl := Option.some.inj hstep
      exact h.start call
  | attempt i fate =>
      simp only [Link.step] at hstep
      split at hstep
      · exact absurd hstep (by simp)
      · rename_i c hc
        split at hstep
        · rename_i k hphase
          obtain rfl := Option.some.inj hstep
          exact h.attempt fate hc hphase
        · exact absurd hstep (by simp)
        · exact absurd hstep (by simp)
  | outside bmc =>
      obtain rfl := Option.some.inj hstep
      exact ⟨h.earned, h.executionsOf_le, h.executions⟩

/-- **Run lemma.** -/
theorem Sound.of_run {bmc : σ} {ops : List (Op σ)}
    (h : exec (Link.step backend handle) (Link.init bmc) ops = some L) : Sound backend handle L :=
  (run_any_of_exec h).invariant (I := Sound backend handle)
    (fun _ _ _ hL hstep => hL.step hstep.1) (.init bmc)

end Link

/-- **Answers are earned.** Whatever the network does, however the calls of a backend interleave
and whatever the BMC does with its requests: the BMC handles the request of a call at most as often
as the call has attempts. When the call has returned and reports a reset as accepted, the BMC
accepted it during the call; a power state other than `UNKNOWN` is one that the BMC gave during the
call; and without a response all attempts were used up. -/
theorem answers_earned {σ : Type} {backend : Backend} {handle : σ → Request → σ × Response}
    {bmc : σ} {ops : List (Op σ)} {L : Link σ}
    (h : exec (Link.step backend handle) (Link.init bmc) ops = some L) {i : Nat} {c : Pending}
    (hc : L.calls[i]? = some c) :
    L.executionsOf i ≤ c.made ∧ c.made ≤ backend.bmc.maxAttempts ∧
      ∀ response, c.phase = .returned response →
        (sendReset response = true → ∃ x ∈ L.executions, x.call = i ∧
          x.request = backend.request c.call ∧
          sendReset (some (handle x.before x.request).2) = true) ∧
        (readPowerState response ≠ .unknown → ∃ x ∈ L.executions, x.call = i ∧
          x.request = backend.request c.call ∧
          readPowerState (some (handle x.before x.request).2) = readPowerState response) ∧
        (response = none → c.made = backend.bmc.maxAttempts) := by
  have hsound : L.Sound backend handle := .of_run h
  have hearned := hsound.earned i c hc
  refine ⟨hsound.executionsOf_le i c hc, hearned.made_le, fun response hphase => ?_⟩
  rw [hphase] at hearned
  cases response with
  | none => exact ⟨fun hreset => absurd hreset Bool.false_ne_true,
      fun hstate => absurd rfl hstate, fun _ => hearned⟩
  | some r =>
      obtain ⟨-, x, hx, rfl, rfl⟩ := hearned
      obtain ⟨hresponse, c', hc', hrequest⟩ := hsound.executions x hx
      obtain rfl := Option.some.inj (hc.symm.trans hc')
      rw [hresponse]
      exact ⟨fun hreset => ⟨x, hx, rfl, hrequest, hreset⟩, fun _ => ⟨x, hx, rfl, hrequest, rfl⟩,
        fun hnone => absurd hnone (by simp)⟩

/-- A machine that is on or off, and answers. -/
def handleReset (on : Bool) (request : Request) : Bool × Response :=
  match request.resetType with
  | some "On" => (true, ⟨204, none⟩)
  | some _ => (false, ⟨204, none⟩)
  | none => (on, ⟨200, some (.object (some (if on then "On" else "Off")))⟩)

/-- The answer to a power-on is lost, and a poll comes between its attempts. -/
def retriedReset : List (Op Bool) :=
  [.start .powerOn, .attempt 0 .answerLost, .start .powerState, .attempt 1 .answered,
    .attempt 0 .requestLost]

/-- The power-on is reported as failed, although the BMC has handled it; the poll is right. -/
theorem answers_earned_retriedReset :
    ∃ L : Link Bool, exec (Link.step (.init "10.0.0.9" none "/redfish/v1/Systems/Self") handleReset)
        (Link.init false) retriedReset = some L ∧
      L.calls.map Pending.phase = [.returned none,
        .returned (some ⟨200, some (.object (some "On"))⟩)] ∧ L.bmc = true ∧
      ∃ x ∈ L.executions, x.call = 1 ∧
        readPowerState (some (handleReset x.before x.request).2) = .on := by
  have hrun : ∃ L : Link Bool, exec
      (Link.step (.init "10.0.0.9" none "/redfish/v1/Systems/Self") handleReset)
      (Link.init false) retriedReset = some L ∧
      L.calls = [⟨.powerOn, .returned none, 2⟩,
        ⟨.powerState, .returned (some ⟨200, some (.object (some "On"))⟩), 1⟩] ∧
      L.bmc = true := ⟨_, rfl, rfl, rfl⟩
  obtain ⟨L, hL, hcalls, hbmc⟩ := hrun
  have hc : L.calls[1]? = some ⟨.powerState,
      .returned (some ⟨200, some (.object (some "On"))⟩), 1⟩ := by
    rw [hcalls]
    rfl
  obtain ⟨x, hx, hxcall, -, hstate⟩ := ((answers_earned hL hc).2.2 _ rfl).2.1 (by decide)
  exact ⟨L, hL, by rw [hcalls]; rfl, hbmc, x, hx, hxcall, hstate⟩

end Relay.Redfish
