import Relay.Endpoint.Balance

/-!
# Relay.Endpoint.Race

**The race between promotion, disconnect and timeout.** An entry may be promoted while
its request sits in `is_disconnected` or in its sleep, so the request that leaves
decides by the `done` flag whether to release or to abandon. `promoted_or_abandoned`
shows that the decision is right for every interleaving: an entry is abandoned once and
never promoted, or promoted once and released once, and until then exactly one task sees
to it. When all tasks are over nothing is left behind.
-/

namespace Relay

open Runs

namespace Stage

/-- An entry nobody has to see to has been abandoned, or promoted and released. -/
theorem counts_of_not_isOpen {stage : Stage} (h : stage.isOpen = false) (hne : stage ≠ .fresh) :
    stage.promotions = 0 ∧ stage.releases = 0 ∧ stage.abandonments = 1 ∨
      stage.promotions = 1 ∧ stage.releases = 1 ∧ stage.abandonments = 0 := by
  cases stage with
  | fresh => exact absurd rfl hne
  | waiting => exact absurd h (by decide)
  | running => exact absurd h (by decide)
  | released => exact Or.inr ⟨rfl, rfl, rfl⟩
  | abandoned => exact Or.inl ⟨rfl, rfl, rfl⟩

theorem counts_of_isOpen {stage : Stage} (h : stage.isOpen = true) :
    stage.promotions ≤ 1 ∧ stage.releases = 0 ∧ stage.abandonments = 0 := by
  cases stage with
  | fresh => exact absurd h (by decide)
  | waiting => exact ⟨Nat.zero_le 1, rfl, rfl⟩
  | running => exact ⟨Nat.le_refl 1, rfl, rfl⟩
  | released => exact absurd h (by decide)
  | abandoned => exact absurd h (by decide)

end Stage

namespace Endpoint

variable {E E' : Endpoint} {cfg : EndpointConfig} {t : Task} {q : EndpointQueue} {a : Int}
  {phase : Phase}

/-! ### What a task has forwarded -/

theorem hasForwarded_slotHead (E : Endpoint) (e : EntryRef) :
    (E.slotHead e).2.hasForwarded = (E.slotHead e).2.forwards := by
  unfold slotHead
  split <;> rfl

theorem SpotPass.not_forwarded {s : SessionRef} {q' : EndpointQueue} (h : SpotPass q s q' phase) :
    phase.hasForwarded = false ∧ phase.forwards = false := by
  cases h <;> exact ⟨rfl, rfl⟩

/-- The phase of a task says whether it has called `_forward`, and a step calls it when it
enters such a phase. -/
theorem Move.hasForwarded (h : Move E t q a phase) :
    (if phase.hasForwarded then 1 else 0) =
      (if t.phase.hasForwarded then 1 else 0) + if phase.forwards then 1 else 0 := by
  have hidle : ∀ phase : Phase, phase.isIdle = true →
      phase.hasForwarded = false ∧ phase.forwards = false := by
    intro phase hphase
    refine ⟨Phase.isIdle.hasForwarded hphase, ?_⟩
    cases phase <;> first | rfl | exact absurd hphase Bool.false_ne_true
  cases h with
  | idle h h' => rw [(hidle _ h).1, (hidle _ h').1, (hidle _ h').2]; rfl
  | begin h => rw [(hidle _ h).1]; rfl
  | fail h => rw [h]; rfl
  | join h hhead => rw [h, ← hhead, hasForwarded_slotHead]; exact (Nat.zero_add _).symm
  | head h => rw [h, hasForwarded_slotHead]; exact (Nat.zero_add _).symm
  | sleep h => rw [h]; rfl
  | abandon h hdone hreply => rcases hreply with rfl | rfl <;> rw [h] <;> rfl
  | leave h hdone hreply => rcases hreply with rfl | rfl <;> rw [h] <;> rfl
  | finish h => rw [h]; rfl
  | forward h hphase => rcases hphase with rfl | rfl | rfl <;> rw [(hidle _ h).1] <;> rfl
  | finishForward h => rw [h]; rfl
  | finishTunnel h => rw [h]; rfl
  | connect h hpass => rw [(hidle _ h).1, hpass.not_forwarded.1, hpass.not_forwarded.2]; rfl
  | retry h hpass => rw [h, hpass.not_forwarded.1, hpass.not_forwarded.2]; rfl
  | disconnect h => rw [h]; rfl

/-- Every task has called `_forward` as often as its phase says. -/
def ForwardsCounted (E : Endpoint) : Prop :=
  ∀ t ∈ E.tasks, t.forwards = if t.phase.hasForwarded then 1 else 0

theorem ForwardsCounted.step (h : ForwardsCounted E) {op : Op} (hstep : E.step op = some E') :
    ForwardsCounted E' := by
  rcases step_cases hstep with ⟨request, -, rfl⟩ |
    ⟨i, input, t, q, a, phase, -, ht, hmove, -, rfl⟩ | ⟨qop, q, -, -, -, rfl⟩
  · intro t ht
    rcases List.mem_append.mp ht with hold | hnew
    · exact h t hold
    · rw [List.mem_singleton.mp hnew]
      rfl
  · intro t' ht'
    rcases List.mem_or_eq_of_mem_set ht' with hold | rfl
    · exact h t' hold
    · show t.forwards + _ = if phase.hasForwarded then 1 else 0
      rw [h t (List.mem_of_getElem? ht), hmove.hasForwarded]
  · exact h

theorem forwardsCounted_of_run {ops : List Op} {ok : Endpoint → Op → Prop}
    (h : Run (Steps Endpoint.step ok) (Endpoint.init cfg) ops E) : ForwardsCounted E :=
  h.invariant (fun _ _ _ hs hstep => hs.step hstep.1) fun _ ht => absurd ht List.not_mem_nil

/-! ### The end of a run -/

/-- The call has returned and its forward has finished. -/
def Task.IsOver (t : Task) : Prop := ∃ reply, t.phase = .ended reply

/-- When all tasks are over no entry is open, and no tunnel. -/
theorem Balanced.isOpen_of_ended (h : Balanced cfg E) (hover : ∀ t ∈ E.tasks, Task.IsOver t)
    (e : EntryRef) : E.queue.isOpen e = false := by
  have hzero : E.owners e = 0 := List.countP_eq_zero.mpr fun t ht => by
    obtain ⟨reply, hreply⟩ := hover t ht
    simp [hreply, Phase.entryRef?]
  rw [h.owners_eq] at hzero
  cases hopen : E.queue.isOpen e with
  | true => simp [hopen] at hzero
  | false => rfl

/-- When all tasks are over nothing waits and nothing is counted. -/
theorem Balanced.clean_of_ended (h : Balanced cfg E) (hover : ∀ t ∈ E.tasks, Task.IsOver t) :
    E.queue.queue = [] ∧ E.queue.inflightTotal = 0 ∧
      ∀ s, (E.queue.objs s).waiting = 0 ∧ (E.queue.objs s).inflight = 0 := by
  have hopen := h.isOpen_of_ended hover
  have hqueue : E.queue.queue = [] := List.eq_nil_iff_forall_not_mem.mpr fun e he => by
    have := h.lifecycle.isOpen_of_mem_queue he
    rw [hopen] at this
    exact Bool.false_ne_true this
  have hrunning : E.queue.running = [] := List.eq_nil_iff_forall_not_mem.mpr fun e he => by
    have := h.lifecycle.isOpen_of_mem_running he
    rw [hopen] at this
    exact Bool.false_ne_true this
  have htunnels : ∀ s, E.tunnels s = 0 := fun s => List.countP_eq_zero.mpr fun t ht => by
    obtain ⟨reply, hreply⟩ := hover t ht
    simp [hreply, Phase.tunnel?]
  refine ⟨hqueue, ?_, fun s => ⟨?_, ?_⟩⟩
  · rw [h.accounts.total_eq, hrunning]
    rfl
  · rw [h.accounts.waiting_eq, EndpointQueue.waitingCount, hqueue]
    rfl
  · rw [h.accounts.inflight_eq, EndpointQueue.runningCount, hrunning, htunnels]
    rfl

/-- **Promoted and released, or abandoned.** After every run of an endpoint each entry
that was made is seen to by exactly one unfinished task, or has been abandoned once and
never promoted, or has been promoted once and released once. A call that answers for its
hold has not been forwarded, a call that answers with the target's response has been
forwarded once; and when all calls are over, the queue is empty and nothing is counted. -/
theorem promoted_or_abandoned {ops : List Op}
    (h : Run (Steps step Any) (Endpoint.init cfg) ops E) :
    (∀ e, e < E.queue.entries.next →
      E.owners e = 1 ∧ promotions E.queue.log e ≤ 1 ∧ releases E.queue.log e = 0 ∧
        abandonments E.queue.log e = 0 ∨
      E.owners e = 0 ∧ promotions E.queue.log e = 0 ∧ releases E.queue.log e = 0 ∧
        abandonments E.queue.log e = 1 ∨
      E.owners e = 0 ∧ promotions E.queue.log e = 1 ∧ releases E.queue.log e = 1 ∧
        abandonments E.queue.log e = 0) ∧
    (∀ t ∈ E.tasks, t.phase = .ended .disconnected ∨ t.phase = .ended .timedOut → t.forwards = 0) ∧
    (∀ t ∈ E.tasks, t.phase = .ended .forwarded → t.forwards = 1) ∧
    ((∀ t ∈ E.tasks, Task.IsOver t) →
      (∀ e, E.owners e = 0) ∧ E.queue.queue = [] ∧ E.queue.inflightTotal = 0 ∧
        ∀ s, (E.queue.objs s).waiting = 0 ∧ (E.queue.objs s).inflight = 0) := by
  have hbalanced := balanced_of_run h
  have hforwards := forwardsCounted_of_run h
  refine ⟨?_, ?_, ?_, ?_⟩
  · intro e he
    obtain ⟨stage, hstage⟩ := Option.isSome_iff_exists.mp (hbalanced.lifecycle.legal e)
    obtain ⟨hpromotions, hreleases, habandonments⟩ := counts_of_stageOf hstage
    have hne : stage ≠ .fresh := by
      rintro rfl
      have hle := (hbalanced.lifecycle.fresh_iff e).mp hstage
      omega
    have howners := hbalanced.owners_eq e
    rw [EndpointQueue.isOpen, hstage, Option.any_some] at howners
    rw [howners, hpromotions, hreleases, habandonments]
    cases hopen : stage.isOpen with
    | true =>
        obtain ⟨hle, hrel, habd⟩ := Stage.counts_of_isOpen hopen
        exact Or.inl ⟨rfl, hle, hrel, habd⟩
    | false =>
        rcases Stage.counts_of_not_isOpen hopen hne with hcounts | hcounts
        · exact Or.inr (Or.inl ⟨rfl, hcounts⟩)
        · exact Or.inr (Or.inr ⟨rfl, hcounts⟩)
  · intro t ht hphase
    rw [hforwards t ht]
    rcases hphase with hphase | hphase <;> rw [hphase] <;> rfl
  · intro t ht hphase
    rw [hforwards t ht, hphase]
    rfl
  · intro hover
    refine ⟨fun e => ?_, hbalanced.clean_of_ended hover⟩
    rw [hbalanced.owners_eq, hbalanced.isOpen_of_ended hover]
    rfl

/-- One spot, and one request of a session at a time. -/
def oneAtATime : EndpointConfig := .queued (.ofArgs 1 1 300 600 false false)

/-- Three requests of one session arrive at a ready endpoint. The first runs; while the
others wait in `is_disconnected` it finishes, which promotes the second; then the clients
of both have hung up. -/
def promoteDisconnectRace : List Op :=
  [.manage (.setReady true), .arrive (.ofSession .http "a"), .arrive (.ofSession .http "a"),
    .arrive (.ofSession .http "a"), .resume 0 {}, .resume 0 {}, .resume 0 {}, .resume 1 {},
    .resume 1 {}, .resume 1 {}, .resume 2 {}, .resume 2 {}, .resume 0 { now := 5 },
    .resume 2 { disconnected := true }, .resume 1 { disconnected := true }]

/-- The second entry, which was promoted, is released, and the third is abandoned. -/
theorem promoted_or_abandoned_race :
    ∃ E, exec step (Endpoint.init oneAtATime) promoteDisconnectRace = some E ∧
      E.queue.log.drop 4 = [.released 0, .promoted 1, .abandoned 2, .released 1] ∧
      E.queue.queue = [] ∧ E.queue.inflightTotal = 0 := by
  have hview : (exec step (Endpoint.init oneAtATime) promoteDisconnectRace).map
      (fun E => (E.queue.log.drop 4, E.tasks.map Task.phase)) =
        some ([.released 0, .promoted 1, .abandoned 2, .released 1],
          [.ended .forwarded, .ended .disconnected, .ended .disconnected]) := by decide +kernel
  obtain ⟨E, hexec, hE⟩ := Option.map_eq_some_iff.mp hview
  obtain ⟨hlog, hphases⟩ := Prod.mk.inj hE
  have hover : ∀ t ∈ E.tasks, Task.IsOver t := by
    intro t ht
    have hphase := List.mem_map_of_mem (f := Task.phase) ht
    rw [hphases] at hphase
    simp only [List.mem_cons, List.not_mem_nil, or_false] at hphase
    rcases hphase with h | h | h <;> exact ⟨_, h⟩
  have hclean := (promoted_or_abandoned (run_any_of_exec hexec)).2.2.2 hover
  exact ⟨E, hexec, hlog, hclean.2.1, hclean.2.2.1⟩

end Endpoint

end Relay
