import Relay.App.Admissions

/-!
# Relay.App.Awaiting

**Every call a handler awaits is under way, and no other handler awaits it.** The methods of a
server are coroutines that its background tasks and the handlers resume, each its own. `Going` says
so of a state of the app, together with the clocks of the servers, which are not ahead of the
app's; every step keeps it (`Going.step`).
-/

namespace Relay

open Runs

/-! ### One step of a server -/

/-- The clock readings of a step are not ahead of `t`. -/
def System.Op.ReadBy (t : Time) : System.Op → Prop
  | .server (.call _ now) => now ≤ t
  | .server (.resume _ outcome) => outcome.now ≤ t
  | _ => True

namespace ServerRuntime

variable {S S' : ServerRuntime} {active : Bool}

/-- A call is under way. -/
def IsUnderWay (S : ServerRuntime) (c : Nat) : Prop :=
  ∃ phase, S.calls[c]? = some phase ∧ phase ≠ .ended

/-- Unless it restarts, a server reads no other clock than its step does, and ends no other call
than the one it resumes. -/
theorem step_underWay {op : Op} (h : S.step active op = some S')
    (hop : ∀ degraded now, op ≠ .restart degraded now) :
    (∀ t, S.clock ≤ t → System.Op.ReadBy t (.server op) → S'.clock ≤ t) ∧
    ∀ c, S.IsUnderWay c → (∀ outcome, op ≠ .resume c outcome) → S'.IsUnderWay c := by
  rcases step_cases h with ⟨call, now, S₁, phase, rfl, -, hmove, rfl⟩ |
    ⟨i, outcome, source, S₁, phase, rfl, hsource, -, hmove, rfl⟩ |
    ⟨i, call, rest, tick, rfl, hcall, rfl⟩ | ⟨degraded, now, rfl, -, rfl⟩
  · refine ⟨fun t _ hread => hmove.frame.2.2.2.trans_le hread, fun c hc _ => ?_⟩
    obtain ⟨phase', hphase', hne⟩ := hc
    refine ⟨phase', ?_, hne⟩
    exact (List.getElem?_append_left (List.getElem?_eq_some_iff.mp hphase').1).trans hphase'
  · refine ⟨fun t _ hread => hmove.frame.2.2.2.trans_le hread, fun c hc hother => ?_⟩
    obtain ⟨phase', hphase', hne⟩ := hc
    have hci : i ≠ c := fun heq => hother outcome (by rw [heq])
    exact ⟨phase', (List.getElem?_set_ne hci).trans hphase', hne⟩
  · refine ⟨fun t hclock _ => ?_, fun c hc _ => ?_⟩
    · cases call <;> exact hclock
    · obtain ⟨phase', hphase', hne⟩ := hc
      by_cases hci : i = c
      · subst hci
        have hi := (List.getElem?_eq_some_iff.mp hcall).1
        exact ⟨.storing call rest true tick, List.getElem?_set_self hi, by simp⟩
      · exact ⟨phase', (List.getElem?_set_ne hci).trans hphase', hne⟩
  · exact absurd rfl (hop degraded now)

/-- A method can be called at any time. -/
theorem call_isSome (active : Bool) (call : Call) {now : Time} (hclock : S.clock ≤ now) :
    ∃ S', S.step active (.call call now) = some S' := by
  simp only [step]
  exact ⟨_, if_pos hclock⟩

/-- A call that is under way can go on at any time, with any outcome. -/
theorem resume_isSome (active : Bool) {c : Nat} (h : S.IsUnderWay c) {outcome : Outcome}
    (hclock : S.clock ≤ outcome.now) : ∃ S', S.step active (.resume c outcome) = some S' := by
  obtain ⟨phase, hphase, hne⟩ := h
  simp only [step, hphase]
  cases phase with
  | ended => exact absurd rfl hne
  | _ => exact ⟨_, if_pos hclock⟩

end ServerRuntime

/-! ### What a step leaves alone -/

/-- The call of a server that a handler awaits. -/
def HandlerPhase.awaited? (tables : Topology.RelayApp) : HandlerPhase → Option (Nat × Nat)
  | .adopting e _ call => some ((place tables e).server, call)
  | .ordering server call _ _ => some (server, call)
  | _ => none

/-- A handler awaits a call of a server, or the body. -/
def HandlerPhase.isSuspended : HandlerPhase → Bool
  | .adopting .. | .reading .. | .ordering .. => true
  | .admitted .. | .answered _ => false

namespace App

variable {platform : Platform} {A A' A₁ : App} {asked : Asked} {phase : HandlerPhase}
  {e : Topology.EndpointRuntime} {kind : RequestKind} {own : Option (Nat × Nat)}

/-- No server is ahead of the clock. -/
def OnTime (A : App) : Prop := ∀ S ∈ A.systems, S.server.clock ≤ A.clock

/-- A call of a server is under way. -/
def IsUnderWay (A : App) (call : Nat × Nat) : Prop :=
  ∃ S, A.systems[call.1]? = some S ∧ S.server.IsUnderWay call.2

/-- Some steps of the servers, which resume no call but `own`. -/
structure Stays (A A' : App) (own : Option (Nat × Nat)) : Prop where
  tables : A'.tables = A.tables
  handlers : A'.handlers = A.handlers
  clock : A'.clock = A.clock
  onTime : A.OnTime → A'.OnTime
  underWay : ∀ call, own ≠ some call → A.IsUnderWay call → A'.IsUnderWay call

theorem Stays.refl (A : App) (own : Option (Nat × Nat)) : Stays A A own :=
  ⟨rfl, rfl, rfl, id, fun _ _ h => h⟩

theorem Stays.trans (h : Stays A A₁ own) (h' : Stays A₁ A' none) : Stays A A' own where
  tables := h'.tables.trans h.tables
  handlers := h'.handlers.trans h.handlers
  clock := h'.clock.trans h.clock
  onTime := fun hon => h'.onTime (h.onTime hon)
  underWay := fun call hown hcall => h'.underWay call (by simp) (h.underWay call hown hcall)

/-- The call a step resumes. -/
def resumed? (n : Nat) : System.Op → Option (Nat × Nat)
  | .server (.resume c _) => some (n, c)
  | _ => none

theorem Stays.of_act {n : Nat} {op : System.Op} (h : A.act n op = some A')
    (hop : isRestart (n, op) = false) (hread : op.ReadBy A.clock) :
    Stays A A' (resumed? n op) := by
  obtain ⟨systems, hsystems, rfl⟩ := Option.map_eq_some_iff.mp h
  obtain ⟨S, S', hS, hstep, rfl⟩ := stepAt_eq_some hsystems
  have hn := (List.getElem?_eq_some_iff.mp hS).1
  -- what the one server does
  have hone : (S.server.clock ≤ A.clock → S'.server.clock ≤ A.clock) ∧
      ∀ c, S.server.IsUnderWay c → resumed? n op ≠ some (n, c) → S'.server.IsUnderWay c := by
    rcases System.step_cases hstep with ⟨sop, rfl, hserver, -⟩ | ⟨eop, rfl, -, hserver⟩
    · obtain ⟨hclock, hcalls⟩ := ServerRuntime.step_underWay hserver
        fun degraded now heq => by simp [heq, isRestart] at hop
      refine ⟨fun hold => hclock _ hold hread, fun c hc hother => hcalls c hc fun outcome heq => ?_⟩
      exact hother (by rw [heq]; rfl)
    · rw [hserver]
      exact ⟨id, fun _ hc _ => hc⟩
  refine ⟨rfl, rfl, rfl, fun hon T hT => ?_, fun call hown hcall => ?_⟩
  · rcases List.mem_or_eq_of_mem_set hT with hold | rfl
    · exact hon T hold
    · exact hone.1 (hon S (List.mem_of_getElem? hS))
  · obtain ⟨T, hT, hcall⟩ := hcall
    obtain ⟨m, c⟩ := call
    by_cases hm : n = m
    · subst hm
      obtain rfl : S = T := Option.some.inj (hS.symm.trans hT)
      exact ⟨S', List.getElem?_set_self hn, hone.2 c hcall hown⟩
    · exact ⟨T, (List.getElem?_set_ne hm).trans hT, hcall⟩

/-- A method of a server is called: the call is new. -/
theorem Stays.of_callServer {n c : Nat} {call : Call} (h : A.callServer n call = some (c, A')) :
    Stays A A' none ∧ ¬ A.IsUnderWay (n, c) ∧ ∃ phase, A'.callAt n c = some phase := by
  obtain ⟨S, hS, rfl, hact⟩ := callServer_eq_some h
  refine ⟨.of_act hact rfl (le_refl A.clock), ?_, ?_⟩
  · rintro ⟨T, hT, phase, hphase, -⟩
    obtain rfl : S = T := Option.some.inj (hS.symm.trans hT)
    exact absurd (List.getElem?_eq_some_iff.mp hphase).1 (Nat.lt_irrefl _)
  · obtain ⟨systems, hsystems, rfl⟩ := Option.map_eq_some_iff.mp hact
    obtain ⟨T, S', hT, hstep, rfl⟩ := stepAt_eq_some hsystems
    obtain rfl : S = T := Option.some.inj (hS.symm.trans hT)
    have hn := (List.getElem?_eq_some_iff.mp hS).1
    obtain ⟨server, hserver, rfl⟩ := Option.map_eq_some_iff.mp hstep
    rcases ServerRuntime.step_cases hserver with ⟨call', now, S₁, phase, -, -, -, rfl⟩ |
      ⟨_, _, _, _, _, heq, -⟩ | ⟨_, _, _, _, heq, -⟩ | ⟨_, _, heq, -⟩
    · refine ⟨phase, ?_⟩
      simp [callAt, List.getElem?_set_self hn]
    · exact absurd heq (by simp)
    · exact absurd heq (by simp)
    · exact absurd heq (by simp)

/-- A handler that is routed on awaits no other call than the one it made. -/
structure Onward (A A' : App) (phase : HandlerPhase) (call : Nat × Nat) : Prop where
  stays : Stays A A' none
  awaited : ∀ call', phase.awaited? A.tables = some call' → call' = call ∧ A'.IsUnderWay call

theorem Onward.of_admission {inbound : Inbound} {body : List UInt8}
    (h : A.admitRequest platform e kind inbound body = some (phase, A')) (call : Nat × Nat) :
    Onward A A' phase call := by
  obtain ⟨E, -, rfl, hact⟩ := admitRequest_eq_some h
  exact ⟨.of_act hact rfl trivial,
    fun call' hcall' => absurd hcall' (by simp [HandlerPhase.awaited?])⟩

theorem isUnderWay_of_callAt {n c : Nat} {phase : CallPhase} (h : A.callAt n c = some phase)
    (hne : A.callAt n c ≠ some .ended) : A.IsUnderWay (n, c) := by
  obtain ⟨S, hS, hcall⟩ := Option.bind_eq_some_iff.mp h
  exact ⟨S, hS, phase, hcall, fun heq => hne (h.trans (congrArg some heq))⟩

theorem Onward.of_routed {c : Nat} (h : A.routed platform asked e kind c = some (phase, A'))
    (hcall : ∃ phase, A.callAt (place A.tables e).server c = some phase) :
    Onward A A' phase ((place A.tables e).server, c) := by
  unfold routed at h
  split at h
  · split at h
    · exact .of_admission h _
    · obtain ⟨rfl, rfl⟩ := Prod.mk.inj (Option.some.inj h)
      exact ⟨.refl A none, fun call' hcall' => absurd hcall' (by simp [HandlerPhase.awaited?])⟩
  · rename_i hne
    obtain ⟨rfl, rfl⟩ := Prod.mk.inj (Option.some.inj h)
    obtain ⟨callPhase, hphase⟩ := hcall
    refine ⟨.refl A none, fun call' hcall' => ⟨(Option.some.inj hcall').symm, ?_⟩⟩
    exact isUnderWay_of_callAt hphase hne

/-! ### The calls of the handlers -/

/-- The call a handler of the app awaits. -/
def awaitedBy (A : App) (i : Nat) : Option (Nat × Nat) :=
  (A.handlers[i]?).bind fun handler => handler.phase.awaited? A.tables

/-- Every call a handler awaits is under way, and no other handler awaits it. -/
structure Going (A : App) : Prop where
  onTime : A.OnTime
  underWay : ∀ i call, A.awaitedBy i = some call → A.IsUnderWay call
  distinct : ∀ i j call, A.awaitedBy i = some call → A.awaitedBy j = some call → i = j

/-- Steps that resume no call of a handler. -/
theorem Going.stays (h : Going A) (hstays : Stays A A' own)
    (hown : ∀ i call, own = some call → A.awaitedBy i ≠ some call) : Going A' := by
  have hawaited : ∀ i, A'.awaitedBy i = A.awaitedBy i := fun i => by
    rw [awaitedBy, awaitedBy, hstays.handlers, hstays.tables]
  refine ⟨hstays.onTime h.onTime, fun i call hi => ?_, fun i j call hi hj => ?_⟩
  · rw [hawaited] at hi
    exact hstays.underWay call (fun heq => hown i call heq hi) (h.underWay i call hi)
  · rw [hawaited] at hi hj
    exact h.distinct i j call hi hj

/-- The clock is read, and the tracker and the timeouts change. -/
theorem Going.later (h : Going A) (hsystems : A'.systems = A.systems)
    (htables : A'.tables = A.tables) (hhandlers : A'.handlers = A.handlers)
    (hclock : A.clock ≤ A'.clock) : Going A' := by
  have hawaited : ∀ i, A'.awaitedBy i = A.awaitedBy i := fun i => by
    rw [awaitedBy, awaitedBy, hhandlers, htables]
  have hcalls : ∀ call, A'.IsUnderWay call ↔ A.IsUnderWay call := fun call => by
    rw [IsUnderWay, IsUnderWay, hsystems]
  refine ⟨fun S hS => (h.onTime S (hsystems ▸ hS)).trans hclock, fun i call hi => ?_,
    fun i j call hi hj => ?_⟩
  · rw [hawaited] at hi
    exact (hcalls call).mpr (h.underWay i call hi)
  · rw [hawaited] at hi hj
    exact h.distinct i j call hi hj

/-- A handler starts. -/
theorem Going.enter (h : Going A) (hstays : Stays A A' none)
    (hphase : ∀ call, phase.awaited? A.tables = some call →
      ¬ A.IsUnderWay call ∧ A'.IsUnderWay call) : Going (A'.enter asked phase) := by
  have hawaited : ∀ j, (A'.enter asked phase).awaitedBy j =
      if j = A.handlers.length then phase.awaited? A.tables else A.awaitedBy j := by
    intro j
    have htables : (A'.enter asked phase).tables = A.tables := hstays.tables
    rw [awaitedBy, htables, bind_phase_enter, hstays.handlers]
    rfl
  -- what an older handler awaits was under way
  have hold : ∀ j call, j ≠ A.handlers.length →
      (A'.enter asked phase).awaitedBy j = some call → A.awaitedBy j = some call := by
    intro j call hj hcall
    rwa [hawaited, if_neg hj] at hcall
  have hnew : ∀ call, (A'.enter asked phase).awaitedBy A.handlers.length = some call →
      ¬ A.IsUnderWay call ∧ A'.IsUnderWay call := by
    intro call hcall
    rw [hawaited, if_pos rfl] at hcall
    exact hphase call hcall
  refine ⟨hstays.onTime h.onTime, fun i call hi => ?_, fun i j call hi hj => ?_⟩
  · by_cases hi' : i = A.handlers.length
    · exact (hnew call (hi' ▸ hi)).2
    · exact hstays.underWay call (by simp) (h.underWay i call (hold i call hi' hi))
  · by_cases hi' : i = A.handlers.length
    · by_cases hj' : j = A.handlers.length
      · rw [hi', hj']
      · exact absurd (h.underWay j call (hold j call hj' hj)) (hnew call (hi' ▸ hi)).1
    · by_cases hj' : j = A.handlers.length
      · exact absurd (h.underWay i call (hold i call hi' hi)) (hnew call (hj' ▸ hj)).1
      · exact h.distinct i j call (hold i call hi' hi) (hold j call hj' hj)

/-- A handler goes on. -/
theorem Going.settle {i : Nat} {handler : Handler} (h : Going A)
    (hi : A.handlers[i]? = some handler) (hstays : Stays A A' (handler.phase.awaited? A.tables))
    (hphase : ∀ call, phase.awaited? A.tables = some call →
      handler.phase.awaited? A.tables = some call ∧ A'.IsUnderWay call) :
    Going (A'.settle i handler phase) := by
  have hwas : A.awaitedBy i = handler.phase.awaited? A.tables := by
    rw [awaitedBy, hi, Option.bind_some]
  have hawaited : ∀ j, (A'.settle i handler phase).awaitedBy j =
      if j = i then phase.awaited? A.tables else A.awaitedBy j := by
    intro j
    have htables : (A'.settle i handler phase).tables = A.tables := hstays.tables
    rw [awaitedBy, htables, bind_phase_settle _ (hstays.handlers ▸ hi), hstays.handlers]
    rfl
  -- a handler awaits what it has awaited, or nothing more
  have hbefore : ∀ j call, (A'.settle i handler phase).awaitedBy j = some call →
      A.awaitedBy j = some call := by
    intro j call hj
    rw [hawaited] at hj
    split at hj
    · rename_i heq
      rw [heq, hwas]
      exact (hphase call hj).1
    · exact hj
  refine ⟨hstays.onTime h.onTime, fun j call hj => ?_, fun j k call hj hk => ?_⟩
  · by_cases hji : j = i
    · rw [hawaited, if_pos hji] at hj
      exact (hphase call hj).2
    · refine hstays.underWay call (fun hown => hji ?_) (h.underWay j call (hbefore j call hj))
      exact h.distinct j i call (hbefore j call hj) (hwas.trans hown)
  · exact h.distinct j k call (hbefore j call hj) (hbefore k call hk)

theorem Going.routeTo (h : Going A) (hroute : A.routeTo platform asked e kind = some A') :
    Going A' := by
  obtain ⟨⟨c, A₁⟩, hcalled, hmap⟩ := Option.bind_eq_some_iff.mp hroute
  obtain ⟨⟨phase, A₂⟩, hrouted, rfl⟩ := Option.map_eq_some_iff.mp hmap
  obtain ⟨hstays, hnew, hcall⟩ := Stays.of_callServer hcalled
  rw [← hstays.tables] at hnew hcall
  obtain ⟨hstays', hawaited⟩ := Onward.of_routed hrouted hcall
  refine h.enter (hstays.trans hstays') fun call hphase => ?_
  rw [← hstays.tables] at hphase
  obtain ⟨rfl, hunder⟩ := hawaited call hphase
  exact ⟨hnew, hunder⟩

/-- A handler that answers at once. -/
theorem Going.answer (h : Going A) (asked : Asked) (answer : AppAnswer) :
    Going (A.enter asked (.answered answer)) :=
  h.enter (.refl A none) fun call hcall => absurd hcall (by simp [HandlerPhase.awaited?])

theorem ordered_awaited {n c : Nat} {order : Order} {ok : Bool} {tables : Topology.RelayApp}
    (hcall : ∃ phase, A.callAt n c = some phase) {call : Nat × Nat}
    (h : (A.ordered n c order ok).awaited? tables = some call) :
    call = (n, c) ∧ A.IsUnderWay (n, c) := by
  unfold ordered at h
  split at h
  · exact absurd h (by simp [HandlerPhase.awaited?])
  · rename_i hne
    obtain ⟨phase, hphase⟩ := hcall
    exact ⟨(Option.some.inj h).symm, isUnderWay_of_callAt hphase hne⟩

theorem Going.orderServer {name : String} {order : Order} (h : Going A)
    (horder : A.orderServer asked name order = some A') : Going A' := by
  obtain ⟨⟨c, A₁⟩, hcalled, rfl⟩ := Option.map_eq_some_iff.mp horder
  obtain ⟨hstays, hnew, hcall⟩ := Stays.of_callServer hcalled
  refine h.enter hstays fun call hphase => ?_
  obtain ⟨rfl, hunder⟩ := ordered_awaited hcall hphase
  exact ⟨hnew, hunder⟩

/-- What a resumed call has become. -/
theorem exists_callAt_of_resume {n c : Nat} {outcome : Outcome}
    (h : A.act n (.server (.resume c outcome)) = some A') :
    ∃ phase, A'.callAt n c = some phase := by
  obtain ⟨systems, hsystems, rfl⟩ := Option.map_eq_some_iff.mp h
  obtain ⟨S, S', hS, hstep, rfl⟩ := stepAt_eq_some hsystems
  have hn := (List.getElem?_eq_some_iff.mp hS).1
  obtain ⟨server, hserver, rfl⟩ := Option.map_eq_some_iff.mp hstep
  rcases ServerRuntime.step_cases hserver with ⟨_, _, _, _, heq, -⟩ |
    ⟨i, _, _, _, phase, heq, hi, -, -, rfl⟩ | ⟨_, _, _, _, heq, -⟩ | ⟨_, _, heq, -⟩
  · exact absurd heq (by simp)
  · obtain ⟨rfl, -⟩ := ServerRuntime.Op.resume.inj heq
    refine ⟨phase, ?_⟩
    have hc := (List.getElem?_eq_some_iff.mp hi).1
    simp [callAt, List.getElem?_set_self hn, List.getElem?_set_self hc]
  · exact absurd heq (by simp)
  · exact absurd heq (by simp)

theorem Going.resume {i : Nat} {handler : Handler} {outcome : Outcome}
    {body : Option (List UInt8)} (h : Going A) (hi : A.handlers[i]? = some handler)
    (hnow : outcome.now ≤ A.clock)
    (hresume : A.resume platform i handler outcome body = some A') : Going A' := by
  have hanswer : ∀ {A₁ : App} (answer : AppAnswer),
      Stays A A₁ (handler.phase.awaited? A.tables) →
      Going (A₁.settle i handler (.answered answer)) := fun answer hstays =>
    h.settle hi hstays fun call hcall => absurd hcall (by simp [HandlerPhase.awaited?])
  unfold App.resume at hresume
  split at hresume
  · rename_i e kind c hphase
    obtain ⟨A₁, hact, hgo⟩ := Option.bind_eq_some_iff.mp hresume
    have hstays : Stays A A₁ (handler.phase.awaited? A.tables) := by
      rw [hphase]
      exact .of_act hact rfl hnow
    split at hgo
    · obtain rfl := Option.some.inj hgo
      exact hanswer .raised hstays
    · obtain ⟨⟨phase, A₂⟩, hrouted, rfl⟩ := Option.map_eq_some_iff.mp hgo
      have hcall := exists_callAt_of_resume hact
      rw [← hstays.tables] at hcall
      obtain ⟨hstays', hawaited⟩ := Onward.of_routed hrouted hcall
      refine h.settle hi (hstays.trans hstays') fun call hcall' => ?_
      rw [← hstays.tables] at hcall'
      obtain ⟨rfl, hunder⟩ := hawaited call hcall'
      refine ⟨?_, hunder⟩
      rw [hphase, hstays.tables]
      rfl
  · rename_i e kind hphase
    split at hresume
    · obtain ⟨⟨phase, A₂⟩, hgiven, rfl⟩ := Option.map_eq_some_iff.mp hresume
      obtain ⟨E, -, rfl, hact⟩ := admitRequest_eq_some hgiven
      have hstays : Stays A A₂ (handler.phase.awaited? A.tables) := by
        rw [hphase]
        exact .of_act hact rfl trivial
      exact h.settle hi hstays fun call hcall => absurd hcall (by simp [HandlerPhase.awaited?])
    · obtain rfl := Option.some.inj hresume
      exact hanswer _ (.refl A _)
  · rename_i n c order ok hphase
    obtain ⟨A₁, hact, rfl⟩ := Option.map_eq_some_iff.mp hresume
    have hstays : Stays A A₁ (handler.phase.awaited? A.tables) := by
      rw [hphase]
      exact .of_act hact rfl hnow
    split
    · exact hanswer .raised hstays
    · refine h.settle hi hstays fun call hcall => ?_
      obtain ⟨rfl, hunder⟩ := ordered_awaited (exists_callAt_of_resume hact) hcall
      exact ⟨by rw [hphase]; rfl, hunder⟩
  · exact absurd hresume (by simp)
  · exact absurd hresume (by simp)

/-- A step of a server on its own resumes no call of a handler. -/
theorem resumed_of_background {n : Nat} {op : ServerRuntime.Op} {now : Time}
    (h : A.background? n op = some now) (i : Nat) (call : Nat × Nat)
    (hcall : resumed? n (.server op) = some call) : A.awaitedBy i ≠ some call := by
  intro hawaited
  cases op with
  | resume c outcome =>
      obtain rfl := Option.some.inj hcall
      obtain ⟨hnone, -⟩ := Option.ite_none_left_eq_some.mp h
      obtain ⟨handler, hhandler, hphase⟩ := Option.bind_eq_some_iff.mp hawaited
      refine hnone (List.any_eq_true.mpr ⟨handler, List.mem_of_getElem? hhandler, ?_⟩)
      cases hwhere : handler.phase <;> rw [hwhere] at hphase <;>
        simp_all [HandlerPhase.awaited?]
  | call call' now => exact absurd hcall (by simp [resumed?])
  | commit c => exact absurd hcall (by simp [resumed?])
  | restart degraded now => exact absurd hcall (by simp [resumed?])

/-- The clock readings of a step of a server on its own. -/
theorem readBy_of_background {n : Nat} {op : ServerRuntime.Op} {now : Time}
    (h : A.background? n op = some now) : (System.Op.server op).ReadBy now := by
  cases op with
  | call call now' =>
      cases call <;> first
        | exact le_of_eq (Option.some.inj h)
        | exact absurd h (by simp [background?])
  | resume c outcome => exact le_of_eq (Option.some.inj (Option.ite_none_left_eq_some.mp h).2)
  | commit c => trivial
  | restart degraded now' => trivial

theorem Going.proxy {inbound : Inbound} {recordAt now : Time} (h : Going A) (hnow : A.clock ≤ now)
    (hproxy : A.proxy platform inbound recordAt now = some A') : Going A' := by
  have hlater : Going (A.at' now) := h.later rfl rfl rfl hnow
  have hrecorded : ∀ e, Going ((A.recordUnknown inbound recordAt e).at' now) :=
    fun _ => h.later rfl rfl rfl hnow
  unfold App.proxy at hproxy
  dsimp only at hproxy
  split at hproxy
  · obtain rfl := Option.some.inj hproxy
    exact hlater.answer _ _
  · obtain rfl := Option.some.inj hproxy
    exact hlater.answer _ _
  · exact (hrecorded _).routeTo hproxy
  · exact hlater.routeTo hproxy

theorem Going.wsProxy {inbound : Inbound} {now : Time} (h : Going A) (hnow : A.clock ≤ now)
    (hproxy : A.wsProxy platform inbound now = some A') : Going A' := by
  have hlater : Going (A.at' now) := h.later rfl rfl rfl hnow
  unfold App.wsProxy at hproxy
  dsimp only at hproxy
  split at hproxy
  · obtain rfl := Option.some.inj hproxy
    exact hlater.answer _ _
  · obtain rfl := Option.some.inj hproxy
    exact hlater.answer _ _
  · exact hlater.routeTo hproxy
  · exact hlater.routeTo hproxy

theorem Going.monitorRelease {body : Option Json} {now : Time} (h : Going A)
    (hrelease : A.monitorRelease platform body now = some A') : Going A' := by
  unfold App.monitorRelease at hrelease
  dsimp only at hrelease
  split at hrelease
  · obtain rfl := Option.some.inj hrelease
    exact h.answer _ _
  · split at hrelease
    · obtain rfl := Option.some.inj hrelease
      exact h.answer _ _
    · obtain ⟨A₁, hact, rfl⟩ := Option.map_eq_some_iff.mp hrelease
      have hstays : Stays A A₁ none := .of_act hact rfl trivial
      exact h.enter hstays fun call hcall => absurd hcall (by simp [HandlerPhase.awaited?])

theorem Going.monitorShutdown {body : Option Json} (h : Going A)
    (hshutdown : A.monitorShutdown platform body = some A') : Going A' := by
  unfold App.monitorShutdown at hshutdown
  split at hshutdown
  · obtain rfl := Option.some.inj hshutdown
    exact h.answer _ _
  · exact h.orderServer hshutdown

theorem Going.monitorPower {body : Option Json} (h : Going A)
    (hpower : A.monitorPower platform body = some A') : Going A' := by
  unfold App.monitorPower at hpower
  split at hpower
  · obtain rfl := Option.some.inj hpower
    exact h.answer _ _
  · exact h.orderServer hpower

theorem Going.monitorTimeout (h : Going A) (body : Option Json) :
    Going (A.monitorTimeout body) := by
  have hset : ∀ value, Going (A.setReadTimeout value) :=
    fun value => h.later rfl rfl rfl (le_refl A.clock)
  unfold App.monitorTimeout
  split
  · exact h.answer _ _
  · exact (hset _).answer _ _

/-- **Every step keeps the calls of the handlers under way.** -/
theorem Going.step {op : Op} (h : Going A) (hstep : A.step platform op = some A') : Going A' := by
  cases op with
  | http request recordAt now =>
      obtain ⟨⟨hrecord, hnow⟩, hproxy⟩ := Option.ite_none_right_eq_some.mp hstep
      exact h.proxy (hrecord.trans hnow) hproxy
  | webSocket request now =>
      obtain ⟨hnow, hproxy⟩ := Option.ite_none_right_eq_some.mp hstep
      exact h.wsProxy hnow hproxy
  | release body now =>
      obtain ⟨hnow, hrelease⟩ := Option.ite_none_right_eq_some.mp hstep
      have hlater : Going (A.at' now) := h.later rfl rfl rfl hnow
      exact hlater.monitorRelease hrelease
  | shutdown body now =>
      obtain ⟨hnow, hshutdown⟩ := Option.ite_none_right_eq_some.mp hstep
      have hlater : Going (A.at' now) := h.later rfl rfl rfl hnow
      exact hlater.monitorShutdown hshutdown
  | power body now =>
      obtain ⟨hnow, hpower⟩ := Option.ite_none_right_eq_some.mp hstep
      have hlater : Going (A.at' now) := h.later rfl rfl rfl hnow
      exact hlater.monitorPower hpower
  | timeout body =>
      obtain rfl := Option.some.inj hstep
      exact h.monitorTimeout body
  | resume i outcome body =>
      obtain ⟨hnow, hbind⟩ := Option.ite_none_right_eq_some.mp hstep
      obtain ⟨handler, hi, hresume⟩ := Option.bind_eq_some_iff.mp hbind
      have hlater : Going (A.at' outcome.now) := h.later rfl rfl rfl hnow
      exact hlater.resume hi (le_refl outcome.now) hresume
  | server n op =>
      obtain ⟨now, hbackground, hguard⟩ := Option.bind_eq_some_iff.mp hstep
      obtain ⟨hnow, hact⟩ := Option.ite_none_right_eq_some.mp hguard
      have hlater : Going (A.at' now) := h.later rfl rfl rfl hnow
      exact hlater.stays (.of_act hact (background_calls hbackground).1
        (readBy_of_background hbackground)) fun i call hcall =>
          resumed_of_background hbackground i call hcall
  | endpoint p op =>
      cases op with
      | arrive request => exact absurd hstep (by simp [App.step])
      | resume i input =>
          exact h.stays (.of_act hstep rfl trivial) fun i call hcall =>
            absurd hcall (by simp [resumed?])
      | manage op =>
          exact h.stays (.of_act hstep rfl trivial) fun i call hcall =>
            absurd hcall (by simp [resumed?])
  | prune now =>
      obtain ⟨expiry, -, rfl⟩ :=
        Option.map_eq_some_iff.mp (Option.ite_none_right_eq_some.mp hstep).2
      exact h.later rfl rfl rfl (le_refl A.clock)

end App

end Relay
