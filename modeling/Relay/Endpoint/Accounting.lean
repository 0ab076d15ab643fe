import Relay.Endpoint.Balance

/-!
# Relay.Endpoint.Accounting

**One accounting for requests and connections?** A queued WebSocket counts in the
`inflight` of its session but not in `inflight_total`. So the sessions of an endpoint
count its open tunnels on top of the total (`Balanced.liveInflight_eq`), and atomic mode,
which reads the total, does not see them.

`shared_accounting_iff` draws the consequence for a run: total and sessions agree in all
of its states, and atomic mode runs one thing at a time, exactly when no connection is
ever given a spot.
-/

namespace Relay

open Runs

namespace EndpointQueue

variable {q : EndpointQueue} {held : SessionRef → Nat}

instance (q : EndpointQueue) (s : SessionRef) : Decidable (q.Live s) :=
  inferInstanceAs (Decidable (_ ∨ _ ∨ _))

/-- The requests and connections in flight, as the live sessions count them. -/
def liveInflight (q : EndpointQueue) : Int :=
  (((List.range q.objs.next).filter (fun s => decide (q.Live s))).map
    (fun s => (q.objs s).inflight)).sum

/-- The sessions count the running entries, which are the total, and the connections. -/
theorem Accounts.liveInflight_eq (h : Accounts q held) :
    q.liveInflight = q.inflightTotal + (((List.range q.objs.next).map held).sum : Nat) := by
  have hall : q.liveInflight =
      ((List.range q.objs.next).map (fun s => (q.objs s).inflight)).sum :=
    Counting.sum_map_filter _ _ fun s _ hdead => by
      by_contra hne
      exact of_decide_eq_false hdead (Or.inr (Or.inr hne))
  have hlt : ∀ e ∈ q.running, q.sessionOf e ∈ List.range q.objs.next := fun e he =>
    List.mem_range.mpr (h.session_lt e (h.running_done e he).1)
  have hrunning : ((List.range q.objs.next).map q.runningCount).sum = q.running.length :=
    Counting.sum_countP_eq_length q.sessionOf List.nodup_range hlt
  have hsplit : (List.range q.objs.next).map (fun s => (q.objs s).inflight) =
      ((List.range q.objs.next).map (fun s => q.runningCount s + held s)).map Nat.cast := by
    rw [List.map_map]
    refine List.map_congr_left fun s _ => ?_
    simp [h.inflight_eq]
  rw [hall, hsplit, ← Nat.cast_list_sum, List.sum_map_add, hrunning, h.total_eq]
  exact Int.natCast_add _ _

end EndpointQueue

namespace Endpoint

variable {E E' : Endpoint} {cfg : EndpointConfig}

/-- The open tunnels of queued connections. -/
def openTunnels (E : Endpoint) : Nat := E.countPhase (fun phase => phase.tunnel?.isSome)

/-- The queued requests and connections in flight on the endpoint. -/
def inFlight (E : Endpoint) : Nat := E.queue.running.length + E.openTunnels

/-- Requests and connections share one accounting: the total is what the live sessions
count, and atomic mode runs one of them at a time. -/
def SharedAccounting (E : Endpoint) : Prop :=
  E.queue.liveInflight = E.queue.inflightTotal ∧
    (E.queue.cfg.atomicRequests = true → E.inFlight ≤ 1)

/-- The sessions count the open tunnels on top of the total. -/
theorem Balanced.liveInflight_eq (h : Balanced cfg E) :
    E.queue.liveInflight = E.queue.inflightTotal + E.openTunnels := by
  have hlt : ∀ t ∈ E.tasks, ∀ s, t.phase.tunnel? = some s →
      s ∈ List.range E.queue.objs.next := by
    intro t ht s hs
    refine List.mem_range.mpr (h.accounts.held_lt s ?_)
    have hpos : 0 < E.tunnels s := List.countP_pos_iff.mpr ⟨t, ht, by simp [hs]⟩
    exact Nat.ne_of_gt hpos
  have hsum : ((List.range E.queue.objs.next).map E.tunnels).sum = E.openTunnels :=
    Counting.sum_countP_eq_countP (fun t : Task => t.phase.tunnel?) List.nodup_range hlt
  rw [h.accounts.liveInflight_eq, hsum]

/-- The accounting is shared exactly in the states without an open tunnel. -/
theorem Balanced.sharedAccounting_iff (h : Balanced cfg E) :
    E.SharedAccounting ↔ E.openTunnels = 0 := by
  have hlive := h.liveInflight_eq
  constructor
  · intro hshared
    have heq := hshared.1
    omega
  · intro hnone
    refine ⟨by omega, fun hatomic => ?_⟩
    have htotal := h.accounts.total_eq
    have hbound := h.atomic hatomic
    show E.queue.running.length + E.openTunnels ≤ 1
    omega

/-! ### Runs -/

/-- The step gives a queued connection a spot: `_hold_ws_spot` returns `True`. -/
def Grants (E : Endpoint) (op : Op) : Prop :=
  ∃ i input t E' s, op = .resume i input ∧ E.tasks[i]? = some t ∧
    E.run t input = some (E', .tunnel s)

/-- A step opens a tunnel exactly when it grants a spot. -/
theorem openTunnels_of_step {op : Op} (hnone : E.openTunnels = 0) (hstep : E.step op = some E') :
    E'.openTunnels = 0 ↔ ¬ E.Grants op := by
  rcases step_cases hstep with ⟨request, rfl, rfl⟩ |
    ⟨i, input, t, q, a, phase, rfl, ht, hmove, hrun, rfl⟩ | ⟨qop, q, rfl, -, -, rfl⟩
  · refine iff_of_true ?_ ?_
    · rw [openTunnels, countPhase_arrive _ rfl]
      exact hnone
    · rintro ⟨i, input, t, E', s, hop, -⟩
      cases hop
  · have hcount : (E.advance i t q a phase).openTunnels + _ = E.openTunnels + _ :=
      countPhase_advance ht _
    have hgrants : E.Grants (.resume i input) ↔ phase.tunnel?.isSome = true := by
      constructor
      · rintro ⟨i', input', t', E'', s, hop, ht', hrun'⟩
        obtain ⟨rfl, rfl⟩ := Op.resume.inj hop
        obtain rfl : t = t' := Option.some.inj (ht.symm.trans ht')
        rw [hrun] at hrun'
        obtain ⟨-, rfl⟩ := Prod.mk.inj (Option.some.inj hrun')
        rfl
      · intro htunnel
        cases phase with
        | tunnel s => exact ⟨i, input, t, _, s, rfl, ht, hrun⟩
        | _ => exact absurd htunnel Bool.false_ne_true
    have hclosed : ¬ t.phase.tunnel?.isSome = true :=
      List.countP_eq_zero.mp hnone t (List.mem_of_getElem? ht)
    rw [hgrants]
    rw [hnone, if_neg hclosed] at hcount
    split_ifs at hcount <;> simp_all
  · exact iff_of_true hnone fun ⟨i, input, t, E', s, hop, _⟩ => by cases hop

/-- **The accounting is shared by all states of a run exactly when no step of the run
gives a connection a spot.** -/
theorem shared_accounting_iff (cfg : EndpointConfig) (ops : List Op) :
    (∀ ops₁ E, ops₁ <+: ops → exec step (Endpoint.init cfg) ops₁ = some E →
      E.SharedAccounting) ↔
    (∀ ops₁ op E E', ops₁ ++ [op] <+: ops → exec step (Endpoint.init cfg) ops₁ = some E →
      E.step op = some E' → ¬ E.Grants op) := by
  have hbalanced : ∀ {ops₁ E}, exec step (Endpoint.init cfg) ops₁ = some E → Balanced cfg E :=
    fun h => balanced_of_run (run_any_of_exec h)
  constructor
  · intro hshared ops₁ op E E' hprefix hexec hstep
    have hexec' := exec_snoc_eq_some.mpr ⟨E, hexec, hstep⟩
    have hnone := (hbalanced hexec).sharedAccounting_iff.mp
      (hshared ops₁ E ((List.prefix_append _ _).trans hprefix) hexec)
    exact (openTunnels_of_step hnone hstep).mp
      ((hbalanced hexec').sharedAccounting_iff.mp (hshared _ E' hprefix hexec'))
  · intro hgrants ops₁ E hprefix hexec
    rw [(hbalanced hexec).sharedAccounting_iff]
    -- no tunnel is open at the start, and no step opens one
    induction ops₁ using List.reverseRecOn generalizing E with
    | nil =>
        obtain rfl : Endpoint.init cfg = E := Option.some.inj hexec
        rfl
    | append_singleton ops₁ op ih =>
        obtain ⟨E₁, hexec₁, hstep⟩ := exec_snoc_eq_some.mp hexec
        have hnone := ih E₁ ((List.prefix_append _ _).trans hprefix) hexec₁
        exact (openTunnels_of_step hnone hstep).mpr
          (hgrants ops₁ op E₁ E hprefix hexec₁ hstep)

/-- Two spots, one request at a time. -/
def atomicEndpoint : EndpointConfig := .queued (.ofArgs 2 1 300 600 true false)

/-- On a ready endpoint a connection is given a spot, and then a request of another
session is promoted. -/
def connectionThenRequest : List Op :=
  [.manage (.setReady true), .arrive (.ofSession .webSocket "a"), .resume 0 { now := 1 },
    .resume 0 { now := 1 }, .arrive (.ofSession .http "b"), .resume 1 { now := 2 },
    .resume 1 { now := 2 }, .resume 1 { now := 2 }]

/-- Both are in flight in atomic mode, and the total counts one of them. -/
theorem shared_accounting_counterexample :
    ∃ E, exec step (Endpoint.init atomicEndpoint) connectionThenRequest = some E ∧
      atomicEndpoint.queue.atomicRequests = true ∧ E.inFlight = 2 ∧
      E.queue.inflightTotal = 1 ∧ E.queue.liveInflight = 2 ∧ ¬ E.SharedAccounting := by
  have hview : (exec step (Endpoint.init atomicEndpoint) connectionThenRequest).map
      (fun E => (E.inFlight, E.queue.inflightTotal, E.queue.liveInflight)) = some (2, 1, 2) := by
    decide +kernel
  obtain ⟨E, hexec, hE⟩ := Option.map_eq_some_iff.mp hview
  obtain ⟨hflight, hE⟩ := Prod.mk.inj hE
  obtain ⟨htotal, hlive⟩ := Prod.mk.inj hE
  refine ⟨E, hexec, rfl, hflight, htotal, hlive, fun hshared => ?_⟩
  have heq := hshared.1
  rw [htotal, hlive] at heq
  exact absurd heq (by decide)

end Endpoint

end Relay
