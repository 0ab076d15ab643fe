import Relay.Library.History
import Relay.Server.System

/-!
# Relay.Server.Gating

**Is a power-off still called for when it is issued?** A tick of the shutdown engine looks
at ownership, switch, activity and idle time, then awaits `backend.power_state`, then acts;
only the idle tick looks at the ownership again. Whatever happens during that await goes
unseen. The idle tick moreover sets the idle clock back to its own start when it ends, past
a request that was routed in the meantime.

`Undisturbed` excludes just the steps that come in the way of a tick so.
`justified_of_run` shows that in a run without them every power-off of the engine is
called for at the moment it is issued.
-/

namespace Relay

open Runs

/-! ### What calls for a power-off -/

/-- The power-off is called for: the proxy owns the server, may power it off, and nothing is
going on; one for idling comes more than `timeout` after each routed request. -/
structure PowerOffCall.CalledFor (timeout : Time) (before : List ServerEvent)
    (call : PowerOffCall) : Prop where
  owned : call.owned = true
  enabled : call.enabled = true
  inactive : call.active = false
  idle : call.reason = .idleTimeout → ∀ r, .routed r ∈ before → timeout < call.at' - r

/-- A history in which every power-off of the engine was called for. -/
def Justified (timeout : Time) (log : List ServerEvent) : Prop :=
  History.Always (fun before event => ∀ call, event = .powerOff call → call.reason ≠ .manual →
    call.CalledFor timeout before) log

/-- Whether the tick is the idle one. -/
def ShutdownTick.isIdle : ShutdownTick → Bool
  | .idle _ => true
  | .schedule _ | .deferred => false

/-- The tick that awaits the power state in this call. -/
def CallPhase.verifying? : CallPhase → Option ShutdownTick
  | .verifying tick => some tick
  | _ => none

theorem CallPhase.tick?_of_verifying? {phase : CallPhase} {tick : ShutdownTick}
    (h : phase.verifying? = some tick) : phase.tick? = some tick := by
  cases phase with
  | verifying tick' => exact h
  | _ => exact absurd h (by simp [verifying?])

namespace ServerRuntime

variable {S S' : ServerRuntime} {active : Bool} {now : Time} {phase : CallPhase}
  {tick : ShutdownTick}

/-! ### Interference -/

/-- Whether a tick of the kind awaits the power state. -/
def awaits (S : ServerRuntime) (kind : ShutdownTick → Bool) : Bool :=
  S.calls.any (fun p => p.verifying?.any kind)

/-- Whether an idle tick is under way. -/
def idling (S : ServerRuntime) : Bool := S.calls.any (fun p => p.tick?.any ShutdownTick.isIdle)

theorem awaits_of_mem {p : CallPhase} {kind : ShutdownTick → Bool} (hp : p ∈ S.calls)
    (htick : p.verifying? = some tick) (hkind : kind tick = true) : S.awaits kind = true :=
  List.any_eq_true.mpr ⟨p, hp, by rw [htick]; exact hkind⟩

theorem idling_of_mem {p : CallPhase} {n : Time} (hp : p ∈ S.calls)
    (htick : p.tick? = some (.idle n)) : S.idling = true :=
  List.any_eq_true.mpr ⟨p, hp, by rw [htick]; rfl⟩

/-- Where the step of a call comes from. -/
def source (S : ServerRuntime) : Op → Option Source
  | .call call _ => some (.call call)
  | .resume i outcome => (S.calls[i]?).map (fun phase => .phase phase outcome)
  | .commit _ | .restart _ _ => none

/-- The step comes in the way of a tick that is under way. -/
def disturbedBy (S : ServerRuntime) : Source → Bool
  -- a request is routed before the idle tick sets the clock back
  | .call .onRoutedTraffic => S.idling
  -- the switch is turned off, by hand or by the end of the cycle
  | .call (.setShutdownOverride enabled) => !enabled && S.awaits (fun _ => true)
  | .phase (.poweringOn _ _) outcome =>
      outcome.accepted && (!S.config.shutdownEnabled && S.awaits (fun _ => true))
  -- the ownership is given up; the idle tick notices
  | .phase (.poweringOff _ _ _) outcome =>
      outcome.accepted && S.awaits (fun tick => !tick.isIdle)
  | _ => false

/-! ### What a step does to the gate of a tick -/

variable {source : Source}

theorem Open.congr (h : Open S active tick) (henabled : S'.shutdownEnabledNow = true)
    (howned : S.owned = true → S'.owned = true) : Open S' active tick :=
  ⟨h.inactive, henabled, fun hnot => howned (h.owned hnot)⟩

/-- A gate that a tick has passed stays open under a step that does not disturb it. -/
theorem Move.open (h : Move S active now source S' phase) (hquiet : S.disturbedBy source = false)
    {p : CallPhase} (hp : p ∈ S.calls) (htick : p.verifying? = some tick)
    (hopen : Open S active tick) : Open S' active tick := by
  have hany : S.awaits (fun _ => true) = true := awaits_of_mem hp htick rfl
  cases h with
  | accept hsource hok =>
      refine hopen.congr ?_ fun _ => rfl
      rw [hsource, disturbedBy, hok, hany] at hquiet
      show S.config.shutdownEnabled = true
      simpa using hquiet
  | route _ =>
      refine hopen.congr ?_ fun howned => ?_
      · unfold onRoutedTraffic
        dsimp only
        split <;> exact hopen.enabled
      · unfold onRoutedTraffic
        dsimp only
        split
        · rfl
        · exact howned
  | toggle enabled hsource =>
      refine hopen.congr ?_ id
      rw [hsource, disturbedBy, hany] at hquiet
      show enabled = true
      simpa using hquiet
  | @poll state _ _ hne =>
      rw [polled, if_neg hne]
      refine hopen.congr ?_ fun howned => ?_
      · show (S.setState state).shutdownEnabledNow = true
        unfold setState
        split <;> exact hopen.enabled
      · show (S.setState state).owned = true
        unfold setState
        split <;> exact howned
  | @off reason initiatedBy tick' outcome hsource =>
      cases hok : outcome.accepted with
      | true =>
          -- only the idle tick survives the loss of the ownership
          rw [hsource, disturbedBy, hok, Bool.true_and] at hquiet
          refine ⟨hopen.inactive, hopen.enabled, fun hnot => ?_⟩
          have hidle : tick.isIdle = true := by
            by_contra hno
            have hawaits : S.awaits (fun tick => !tick.isIdle) = true :=
              awaits_of_mem hp htick (by simpa using hno)
            rw [hawaits] at hquiet
            exact absurd hquiet (by decide)
          cases tick with
          | idle n => exact absurd rfl (hnot n)
          | schedule fire => exact absurd hidle (by simp [ShutdownTick.isIdle])
          | deferred => exact absurd hidle (by simp [ShutdownTick.isIdle])
      | false => exact hopen.congr hopen.enabled id
  | @finish p tick' _ _ _ => cases tick' <;> exact hopen.congr hopen.enabled id
  | _ => exact hopen.congr hopen.enabled id

/-- A tick awaits the power state from the moment it has passed its gate. -/
theorem Move.verifying (h : Move S active now source S' phase)
    (htick : phase.verifying? = some tick) : S' = S ∧ Gate S active now tick := by
  cases h with
  | quiet hquiet =>
      have hnone := (Bool.and_eq_true_iff.mp hquiet).1
      rw [CallPhase.tick?_of_verifying? htick] at hnone
      exact absurd hnone (by simp)
  | route _ =>
      unfold onRoutedTraffic at htick
      dsimp only at htick
      split at htick <;> cases htick
  | @poll state _ _ hne =>
      rw [polled, if_neg hne] at htick
      cases htick
  | gate _ hgate =>
      obtain rfl := Option.some.inj htick
      exact ⟨rfl, hgate⟩
  | @off reason initiatedBy tick' outcome _ =>
      cases hok : outcome.accepted with
      | true => rw [hok] at htick; cases htick
      | false => rw [hok] at htick; cases htick
  | _ => cases htick

/-! ### The idle clock -/

/-- A request that is new in the history is being routed, and restarts the idle clock. -/
theorem Move.routed (h : Move S active now source S' phase) {r : Time}
    (hr : .routed r ∈ S'.log) :
    .routed r ∈ S.log ∨ source = .call .onRoutedTraffic ∧ r = now ∧ S'.lastActivity = now := by
  cases h with
  | route hsource =>
      have hS' : (S.onRoutedTraffic now).1.log = S.log ++ [.routed now] ∧
          (S.onRoutedTraffic now).1.lastActivity = now := by
        unfold onRoutedTraffic
        dsimp only
        split <;> exact ⟨rfl, rfl⟩
      rw [hS'.1] at hr
      rcases List.mem_append.mp hr with hold | hnew
      · exact Or.inl hold
      · exact Or.inr ⟨hsource, by simpa using hnew, hS'.2⟩
  | accept _ _ => exact Or.inl (by simpa [poweredOn] using hr)
  | @poll state _ _ hne =>
      rw [polled, if_neg hne] at hr
      exact Or.inl (by simpa using hr)
  | powerOffByHand _ => exact Or.inl (by simpa [ServerRuntime.powerOff] using hr)
  | powerOff _ _ => exact Or.inl (by simpa [ServerRuntime.powerOff] using hr)
  | @off reason initiatedBy tick' outcome _ =>
      cases hok : outcome.accepted with
      | true => rw [hok] at hr; exact Or.inl hr
      | false => rw [hok] at hr; exact Or.inl hr
  | @finish p tick' _ _ _ => cases tick' <;> exact Or.inl hr
  | _ => exact Or.inl hr

/-- The idle clock stands, starts anew, or is set back by the end of an idle tick. -/
theorem Move.lastActivity (h : Move S active now source S' phase) :
    S'.lastActivity = S.lastActivity ∨ S'.lastActivity = now ∨
      ∃ p o n, source = .phase p o ∧ p.tick? = some (.idle n) ∧ S'.lastActivity = n := by
  cases h with
  | route _ =>
      refine Or.inr (Or.inl ?_)
      unfold onRoutedTraffic
      dsimp only
      split <;> rfl
  | @poll state _ _ hne =>
      rw [polled, if_neg hne]
      refine Or.inl ?_
      show (S.setState state).lastActivity = _
      unfold setState
      split <;> rfl
  | restartClock _ _ => exact Or.inr (Or.inl rfl)
  | @off reason initiatedBy tick' outcome _ => cases outcome.accepted <;> exact Or.inl rfl
  | @finish p tick' outcome hsource htick =>
      cases tick' with
      | idle n => exact Or.inr (Or.inr ⟨p, outcome, n, hsource, htick, rfl⟩)
      | schedule fire => exact Or.inl rfl
      | deferred => exact Or.inl rfl
  | _ => exact Or.inl rfl

/-- An idle tick started just now, or goes on. -/
theorem Move.started (h : Move S active now source S' phase) {n : Time}
    (hn : phase.tick? = some (.idle n)) :
    n = now ∨ ∃ p o, source = .phase p o ∧ p.tick? = some (.idle n) := by
  cases h with
  | quiet hquiet =>
      have hnone := (Bool.and_eq_true_iff.mp hquiet).1
      rw [hn] at hnone
      exact absurd hnone (by simp)
  | route _ =>
      unfold onRoutedTraffic at hn
      dsimp only at hn
      split at hn <;> cases hn
  | @poll state _ _ hne =>
      rw [polled, if_neg hne] at hn
      cases hn
  | gate _ hgate => exact Or.inl (hgate.idle n (Option.some.inj hn)).1
  | powerOff hsource _ => exact Or.inr ⟨_, _, hsource, hn⟩
  | @off reason initiatedBy tick' outcome hsource =>
      refine Or.inr ⟨_, _, hsource, ?_⟩
      cases hok : outcome.accepted with
      | true => rw [hok] at hn; exact hn
      | false => rw [hok] at hn; exact hn
  | advance hsource => exact Or.inr ⟨_, _, hsource, hn⟩
  | _ => cases hn

/-! ### The invariant -/

/-- The gates that ticks have passed are open still, the idle clock and the idle ticks under
way are not behind a routed request, and every power-off so far was called for. -/
structure Gated (timeout : Time) (S : ServerRuntime) (active : Bool) : Prop where
  timeout_eq : S.config.idleTimeout = timeout
  clock : ∀ r, .routed r ∈ S.log → r ≤ S.clock
  activity : ∀ r, .routed r ∈ S.log → r ≤ S.lastActivity
  started : ∀ p ∈ S.calls, ∀ n, p.tick? = some (.idle n) →
    n ≤ S.clock ∧ ∀ r, .routed r ∈ S.log → r ≤ n
  gates : ∀ p ∈ S.calls, ∀ tick, p.verifying? = some tick → Open S active tick
  elapsed : ∀ p ∈ S.calls, ∀ n, p.verifying? = some (.idle n) →
    ∀ r, .routed r ∈ S.log → timeout < n - r
  history : Justified timeout S.log

variable {T : Time}

theorem Gated.init (config : ServerConfig) (row : ServerRow) (now : Time) (active : Bool) :
    Gated config.idleTimeout (init config row now) active where
  timeout_eq := rfl
  clock := fun _ hr => absurd hr List.not_mem_nil
  activity := fun _ hr => absurd hr List.not_mem_nil
  started := fun _ hp => absurd hp List.not_mem_nil
  gates := fun _ hp => absurd hp List.not_mem_nil
  elapsed := fun _ hp => absurd hp List.not_mem_nil
  history := History.always_nil _

/-- Time passes. -/
theorem Gated.at (h : Gated T S active) (hnow : S.clock ≤ now) :
    Gated T { S with clock := now } active where
  timeout_eq := h.timeout_eq
  clock := fun r hr => (h.clock r hr).trans hnow
  activity := h.activity
  started := fun p hp n hn => ⟨(h.started p hp n hn).1.trans hnow, (h.started p hp n hn).2⟩
  gates := fun p hp tick htick => ⟨(h.gates p hp tick htick).inactive,
    (h.gates p hp tick htick).enabled, (h.gates p hp tick htick).owned⟩
  elapsed := h.elapsed
  history := h.history

/-- What a tick does when its gate is open still is called for. -/
theorem Gated.recorded (h : Gated T S active) (hnow : S.clock ≤ now)
    (hsource : ∀ p o, source = .phase p o → p ∈ S.calls) {event : ServerEvent}
    (hrecorded : Recorded S active now source event) {call : PowerOffCall}
    (hcall : event = .powerOff call) (hengine : call.reason ≠ .manual) :
    call.CalledFor T S.log := by
  cases hrecorded with
  | byHand =>
      obtain rfl := ServerEvent.powerOff.inj hcall
      exact absurd rfl hengine
  | @engine tick outcome hphase howned =>
      obtain rfl := ServerEvent.powerOff.inj hcall
      have hp := hsource _ _ hphase
      have hopen := h.gates _ hp tick rfl
      refine ⟨?_, hopen.enabled, hopen.inactive, ?_⟩
      · cases tick with
        | idle n => exact howned n rfl
        | schedule fire => exact hopen.owned (by simp)
        | deferred => exact hopen.owned (by simp)
      · intro hidle r hr
        cases tick with
        | idle n =>
            have hn : n ≤ S.clock := (h.started _ hp n rfl).1
            calc T < n - r := h.elapsed _ hp n rfl r hr
              _ ≤ now - r := sub_le_sub_right (hn.trans hnow) r
        | schedule fire => exact absurd hidle (by simp [ShutdownTick.reason])
        | deferred => exact absurd hidle (by simp [ShutdownTick.reason])
  | _ => cases hcall

/-- A call that starts or goes on without coming in the way of a tick. -/
theorem Gated.move (h : Gated T S active) (hclock : S.clock = now)
    (hmove : Move S active now source S' phase)
    (hsource : ∀ p o, source = .phase p o → p ∈ S.calls) (hquiet : S.disturbedBy source = false)
    {calls : List CallPhase} (hcalls : ∀ p ∈ calls, p ∈ S.calls ∨ p = phase) :
    Gated T { S' with calls := calls } active := by
  obtain ⟨hconfig, -, -, hclock'⟩ := hmove.frame
  have hnow : S'.clock = now := hclock'.trans hclock
  have hlate : ∀ r, .routed r ∈ S.log → r ≤ now := fun r hr => hclock ▸ h.clock r hr
  -- a request that is routed now finds no idle tick under way
  have hfree : ∀ r, .routed r ∈ S'.log → .routed r ∈ S.log ∨ r = now ∧ S.idling = false := by
    intro r hr
    rcases hmove.routed hr with hold | ⟨hroute, hr, -⟩
    · exact Or.inl hold
    · rw [hroute] at hquiet
      exact Or.inr ⟨hr, hquiet⟩
  constructor
  · exact (congrArg ServerConfig.idleTimeout hconfig).trans h.timeout_eq
  · intro r hr
    show r ≤ S'.clock
    rw [hnow]
    rcases hfree r hr with hold | ⟨heq, -⟩
    · exact hlate r hold
    · exact le_of_eq heq
  · intro r hr
    show r ≤ S'.lastActivity
    rcases hmove.routed hr with hold | ⟨-, heq, hactivity⟩
    · rcases hmove.lastActivity with hkeep | hanew | ⟨p, o, n, hp, hn, hback⟩
      · exact hkeep ▸ h.activity r hold
      · exact hanew ▸ hlate r hold
      · exact hback ▸ (h.started p (hsource p o hp) n hn).2 r hold
    · exact le_of_eq (heq.trans hactivity.symm)
  · intro p hp n hn
    show n ≤ S'.clock ∧ _
    rw [hnow]
    rcases hcalls p hp with hold | rfl
    · obtain ⟨hstart, hrouted⟩ := h.started p hold n hn
      refine ⟨hclock ▸ hstart, fun r hr => ?_⟩
      rcases hfree r hr with hr | ⟨-, hidle⟩
      · exact hrouted r hr
      · rw [idling_of_mem hold hn] at hidle
        exact absurd hidle (by decide)
    · rcases hmove.started hn with rfl | ⟨p', o, hp', hn'⟩
      · refine ⟨le_rfl, fun r hr => ?_⟩
        rcases hfree r hr with hr | ⟨heq, -⟩
        · exact hlate r hr
        · exact le_of_eq heq
      · obtain ⟨hstart, hrouted⟩ := h.started p' (hsource p' o hp') n hn'
        refine ⟨hclock ▸ hstart, fun r hr => ?_⟩
        rcases hfree r hr with hr | ⟨-, hidle⟩
        · exact hrouted r hr
        · rw [idling_of_mem (hsource p' o hp') hn'] at hidle
          exact absurd hidle (by decide)
  · intro p hp tick htick
    rcases hcalls p hp with hold | rfl
    · have hopen := hmove.open hquiet hold htick (h.gates p hold tick htick)
      exact ⟨hopen.inactive, hopen.enabled, hopen.owned⟩
    · obtain ⟨rfl, hgate⟩ := hmove.verifying htick
      exact ⟨hgate.inactive, hgate.enabled, hgate.owned⟩
  · intro p hp n htick r hr
    rcases hcalls p hp with hold | rfl
    · rcases hfree r hr with hr | ⟨-, hidle⟩
      · exact h.elapsed p hold n htick r hr
      · rw [idling_of_mem hold (CallPhase.tick?_of_verifying? htick)] at hidle
        exact absurd hidle (by decide)
    · obtain ⟨rfl, hgate⟩ := hmove.verifying htick
      obtain ⟨rfl, helapsed⟩ := hgate.idle n rfl
      rw [h.timeout_eq] at helapsed
      exact helapsed.trans_le (sub_le_sub_left (h.activity r hr) n)
  · show Justified T S'.log
    rcases hmove.log with hlog | ⟨event, hlog, hrecorded⟩
    · rw [hlog]
      exact h.history
    · rw [hlog]
      refine History.always_snoc.mpr ⟨h.history, fun call hcall hengine => ?_⟩
      exact h.recorded (le_of_eq hclock) hsource hrecorded hcall hengine

/-- A write of the store concerns no gate. -/
theorem Gated.commit (h : Gated T S active) {i : Nat} {call : StoreCall} {rest : List StoreCall}
    {tick : Option ShutdownTick} (hcall : S.calls[i]? = some (.storing call rest false tick)) :
    Gated T { S.perform call with calls := S.calls.set i (.storing call rest true tick) }
      active := by
  have hmem : .storing call rest false tick ∈ S.calls := List.mem_of_getElem? hcall
  have hold : ∀ p ∈ S.calls.set i (.storing call rest true tick),
      p ∈ S.calls ∨ p = .storing call rest true tick := fun p hp => List.mem_or_eq_of_mem_set hp
  have hframe : ∃ row events, S.perform call = { S with row := row, events := events } := by
    cases call <;> exact ⟨_, _, rfl⟩
  obtain ⟨row, events, heq⟩ := hframe
  rw [heq]
  refine ⟨h.timeout_eq, h.clock, h.activity, ?_, ?_, ?_, h.history⟩
  · intro p hp n hn
    rcases hold p hp with hp | rfl
    · exact h.started p hp n hn
    · exact h.started _ hmem n hn
  · intro p hp tick' htick
    rcases hold p hp with hp | rfl
    · have hopen := h.gates p hp tick' htick
      exact ⟨hopen.inactive, hopen.enabled, hopen.owned⟩
    · cases htick
  · intro p hp n htick
    rcases hold p hp with hp | rfl
    · exact h.elapsed p hp n htick
    · cases htick

/-- A restart drops the ticks and starts the idle clock anew. -/
theorem Gated.restart (h : Gated T S active) (degraded : Bool) (hnow : S.clock ≤ now)
    (active' : Bool) : Gated T (S.restart degraded now) active' where
  timeout_eq := h.timeout_eq
  clock := fun r hr => (h.clock r hr).trans hnow
  activity := fun r hr => (h.clock r hr).trans hnow
  started := fun _ hp => absurd hp List.not_mem_nil
  gates := fun _ hp => absurd hp List.not_mem_nil
  elapsed := fun _ hp => absurd hp List.not_mem_nil
  history := h.history

/-- Activity may begin while no tick awaits the power state. -/
theorem Gated.activate (h : Gated T S active) {active' : Bool}
    (hquiet : S.awaits (fun _ => true) = true → active' = false) : Gated T S active' where
  timeout_eq := h.timeout_eq
  clock := h.clock
  activity := h.activity
  started := h.started
  gates := fun p hp tick htick =>
    ⟨hquiet (awaits_of_mem hp htick rfl), (h.gates p hp tick htick).enabled,
      (h.gates p hp tick htick).owned⟩
  elapsed := h.elapsed
  history := h.history

end ServerRuntime

/-! ### Runs of the system -/

namespace System

open ServerRuntime (Gated)

variable {S S' : System} {T : Time}

/-- The step comes in the way of a tick of the shutdown engine. -/
def disturbs (S : System) : Op → Bool
  | .server op => (S.server.source op).any S.server.disturbedBy
  -- activity begins, or goes on, while a tick awaits the power state
  | .endpoint op =>
      S.server.awaits (fun _ => true) &&
        (stepAt Endpoint.step S.endpoints op).any ServerRuntime.hasActivity

/-- The step comes in the way of no tick. -/
def Undisturbed (S : System) (op : Op) : Prop := S.disturbs op = false

instance (S : System) (op : Op) : Decidable (S.Undisturbed op) :=
  inferInstanceAs (Decidable (S.disturbs op = false))

/-- A step that comes in the way of no tick keeps the gates. -/
theorem gated_step (h : Gated T S.server S.hasActivity) {op : Op} (hstep : S.step op = some S')
    (hquiet : S.Undisturbed op) : Gated T S'.server S'.hasActivity := by
  rcases step_cases hstep with ⟨sop, rfl, hserver, hendpoints⟩ | ⟨eop, rfl, hendpoints, hserver⟩
  · have hdisturbs : (S.server.source sop).any S.server.disturbedBy = false := hquiet
    have hsame : (∀ d now, sop ≠ .restart d now) → S'.hasActivity = S.hasActivity := by
      intro hno
      rw [hasActivity, hasActivity, hendpoints]
      cases sop with
      | restart degraded now => exact absurd rfl (hno degraded now)
      | _ => rfl
    rcases ServerRuntime.step_cases hserver with
      ⟨call, now, S₁, phase, rfl, hnow, hmove, heq⟩ |
      ⟨i, outcome, p, S₁, phase, rfl, hp, hnow, hmove, heq⟩ |
      ⟨i, call, rest, tick, rfl, hcall, heq⟩ | ⟨degraded, now, rfl, hnow, heq⟩
    · rw [heq, hsame (by simp)]
      refine (h.at hnow).move rfl hmove (fun p o hp => by cases hp) hdisturbs fun p hp => ?_
      exact (List.mem_append.mp hp).imp id List.mem_singleton.mp
    · rw [heq, hsame (by simp)]
      refine (h.at hnow).move rfl hmove ?_ ?_ fun p' hp' => List.mem_or_eq_of_mem_set hp'
      · rintro p' o ⟨⟩
        exact List.mem_of_getElem? hp
      · rw [ServerRuntime.source, hp] at hdisturbs
        exact hdisturbs
    · rw [heq, hsame (by simp)]
      exact h.commit hcall
    · rw [heq]
      exact h.restart degraded hnow _
  · rw [hserver]
    refine h.activate fun hawaits => ?_
    have hdisturbs : (S.server.awaits (fun _ => true) &&
        (stepAt Endpoint.step S.endpoints eop).any ServerRuntime.hasActivity) = false := hquiet
    rw [hawaits, hendpoints] at hdisturbs
    exact hdisturbs

/-- **Every power-off is called for.** In every run of a server and its endpoints in which
no step comes in the way of a tick of the shutdown engine, whenever the engine calls
`backend.power_off` the server is owned, may be powered off and has no activity; and for
the idle timeout, more than that time has passed since every routed request. -/
theorem justified_of_run {config : ServerConfig} {row : ServerRow} {start : Time}
    {cfgs : List EndpointConfig} {ops : List Op}
    (h : Run (Steps step Undisturbed) (init config row start cfgs) ops S) :
    Justified config.idleTimeout S.server.log :=
  (h.invariant (I := fun S => Gated config.idleTimeout S.server S.hasActivity)
    (fun _ _ _ hs hstep => gated_step hs hstep.1 hstep.2)
    (Gated.init config row start _)).history

/-- A server on a schedule: it goes off at 500, and after ten seconds of idling. -/
def officeHours : ServerConfig where
  idleTimeout := 10
  shutdownEnabled := true
  adoptOnTraffic := true
  lastFireBefore := some (fun now => if now < 500 then 0 else 500)
  powerOnCooldown := 30

/-- A request is routed at `now`, and the server is adopted by the call at position `i`. -/
def routes (i : Nat) (now : Time) : List Op :=
  [.server (.call .onRoutedTraffic now), .server (.commit i),
    .server (.resume i { now := now }), .server (.commit i), .server (.resume i { now := now })]

/-- The request `i` of an endpoint that does not queue is admitted, and forwarded. -/
def admits (i : Nat) : List Op :=
  [.endpoint (0, .arrive (.ofSession .http "a")), .endpoint (0, .resume i {}),
    .endpoint (0, .resume i {})]

/-- The server is switched on by hand, a request is routed to it and forwarded, and an idle
tick comes while that runs. Long after its end the server idles, and is powered off. -/
def workingDay : List Op :=
  [.server (.call .powerOn 1), .server (.resume 0 { accepted := true, now := 2 }),
    .endpoint (0, .manage (.setReady true)), .server (.call .onRoutedTraffic 3)] ++ admits 0 ++
  [.server (.call .idleOffTick 50), .endpoint (0, .resume 0 {}),
    .server (.call .idleOffTick 100), .server (.call (.setShutdownOverride true) 101),
    .server (.resume 3 { state := .on, now := 102 })]

theorem justified_of_run_workingDay :
    ∃ S, exec (guarded step Undisturbed) (init officeHours {} 0 [Endpoint.concurrentEndpoint])
        workingDay = some S ∧
      S.server.log = [.accepted, .routed 3, .powerOff ⟨.idleTimeout, true, true, false, 102⟩] ∧
      Justified 10 S.server.log := by
  have hview : (exec (guarded step Undisturbed)
      (init officeHours {} 0 [Endpoint.concurrentEndpoint]) workingDay).map
      (fun S => S.server.log) = some [.accepted, .routed 3,
        .powerOff ⟨.idleTimeout, true, true, false, 102⟩] := by decide +kernel
  obtain ⟨S, hexec, hlog⟩ := Option.map_eq_some_iff.mp hview
  exact ⟨S, hexec, hlog, justified_of_run (run_of_exec_guarded hexec)⟩

/-- A request is routed and forwarded while an idle tick awaits the power state. -/
def busyAgain : List Op :=
  [.endpoint (0, .manage (.setReady true)), .server (.call .syncState 0),
    .server (.resume 0 { state := .on, now := 1 })] ++ routes 1 2 ++
  [.server (.call .idleOffTick 100), .server (.call .onRoutedTraffic 101)] ++ admits 0 ++
  [.server (.resume 2 { state := .on, now := 102 })]

theorem justified_counterexample :
    ∃ S, exec step (init officeHours {} 0 [Endpoint.concurrentEndpoint]) busyAgain = some S ∧
      S.server.log = [.routed 2, .routed 101,
        .powerOff ⟨.idleTimeout, true, true, true, 102⟩] ∧
      ¬ Justified 10 S.server.log := by
  have hview : (exec step (init officeHours {} 0 [Endpoint.concurrentEndpoint]) busyAgain).map
      (fun S => S.server.log) = some [.routed 2, .routed 101,
        .powerOff ⟨.idleTimeout, true, true, true, 102⟩] := by decide +kernel
  obtain ⟨S, hexec, hlog⟩ := Option.map_eq_some_iff.mp hview
  refine ⟨S, hexec, hlog, fun hjustified => ?_⟩
  rw [hlog] at hjustified
  have hcalled := hjustified [.routed 2, .routed 101] _ [] rfl _ rfl (by decide)
  exact absurd hcalled.inactive (by decide)

end System

end Relay
