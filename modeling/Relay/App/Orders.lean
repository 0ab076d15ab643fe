import Relay.App.Admissions
import Relay.Server.Moves

/-!
# Relay.App.Orders

**What was asked for is what came to pass.** The history of a server has an entry for each request
that was routed to it and for each call of `backend.power_off`. Those that come from outside, the
routed requests and the power-offs by hand, are just what clients and the monitor asked for, in
their order (`history_as_asked`).
-/

namespace Relay

open Runs

/-- The call from outside that an event of the history is due to. -/
def ServerEvent.askedFor? : ServerEvent → Option Call
  | .routed _ => some .onRoutedTraffic
  | .powerOff call => if call.reason = .manual then some .powerOff else none
  | _ => none

/-- The call leaves an entry in the history. -/
def Call.isNoted : Call → Bool
  | .onRoutedTraffic | .powerOff => true
  | _ => false

namespace ServerRuntime

variable {S S' : ServerRuntime} {active : Bool} {now : Time}

/-- The calls from outside that a history tells of. -/
def askedFor (log : List ServerEvent) : List Call := log.filterMap ServerEvent.askedFor?

/-- The call from outside that a step begins, as far as the history tells of it. -/
def notedCalls : Op → List Call
  | .call call _ => if call.isNoted then [call] else []
  | _ => []

theorem askedFor_snoc (log : List ServerEvent) (event : ServerEvent) :
    askedFor (log ++ [event]) = askedFor log ++ event.askedFor?.toList := by
  rw [askedFor, List.filterMap_append, ← askedFor]
  cases h : event.askedFor? <;> simp [h]

/-- Nothing else is told of as asked for. -/
theorem Move.askedFor_eq {source : Source} {phase : CallPhase}
    (h : Move S active now source S' phase)
    (hsource : ∀ call, source = .call call → call.isNoted = false) :
    askedFor S'.log = askedFor S.log := by
  cases h with
  | quiet _ => rfl
  | accept _ _ => exact (askedFor_snoc _ _).trans (List.append_nil _)
  | route heq => exact absurd (hsource _ heq) (by simp [Call.isNoted])
  | toggle enabled _ => rfl
  | @poll state _ _ hne =>
      rw [ServerRuntime.polled, if_neg hne]
      exact (askedFor_snoc _ _).trans (List.append_nil _)
  | powerOffByHand heq => exact absurd (hsource _ heq) (by simp [Call.isNoted])
  | gate _ _ => rfl
  | restartClock _ _ => rfl
  | @powerOff tick _ _ _ =>
      refine (askedFor_snoc _ _).trans ?_
      cases tick <;> exact List.append_nil _
  | @off reason initiatedBy tick outcome _ => cases outcome.accepted <;> rfl
  | advance _ => rfl
  | @finish _ tick _ _ _ => cases tick <;> rfl

/-- A call that begins is told of once, if it is to be. -/
theorem askedFor_start (call : Call) :
    askedFor (S.start call active now).1.log =
      askedFor S.log ++ if call.isNoted then [call] else [] := by
  have hother : call.isNoted = false →
      askedFor (S.start call active now).1.log = askedFor S.log := by
    intro hnoted
    have hmove : Moves S active now (.call call) (S.start call active now) := start_moves call
    exact hmove.askedFor_eq fun call' heq => Source.call.inj heq ▸ hnoted
  cases call with
  | onRoutedTraffic =>
      have hlog : (S.start .onRoutedTraffic active now).1.log = S.log ++ [.routed now] := by
        show (S.onRoutedTraffic now).1.log = _
        unfold onRoutedTraffic
        dsimp only
        split <;> rfl
      rw [hlog, askedFor_snoc]
      rfl
  | powerOff => exact askedFor_snoc _ _
  | _ => exact (hother rfl).trans (List.append_nil _).symm

/-- One step of a server tells of the call from outside that it begins, and of no other. -/
theorem askedFor_step {op : Op} (h : S.step active op = some S')
    (hop : ∀ degraded now, op ≠ .restart degraded now) :
    askedFor S'.log = askedFor S.log ++ notedCalls op := by
  cases op with
  | call call now =>
      obtain ⟨-, hS'⟩ := Option.ite_none_right_eq_some.mp h
      rw [← Option.some.inj hS']
      exact askedFor_start (S := { S with clock := now }) call
  | resume i outcome =>
      rcases step_cases h with ⟨_, _, _, _, heq, -⟩ |
        ⟨j, _, source, S₁, phase, -, -, -, hmove, rfl⟩ | ⟨_, _, _, _, heq, -⟩ | ⟨_, _, heq, -⟩
      · exact absurd heq (by simp)
      · exact (hmove.askedFor_eq fun call heq => absurd heq (by simp)).trans
          (List.append_nil _).symm
      · exact absurd heq (by simp)
      · exact absurd heq (by simp)
  | commit i =>
      rcases step_cases h with ⟨_, _, _, _, heq, -⟩ | ⟨_, _, _, _, _, heq, -⟩ |
        ⟨_, call, _, _, -, -, rfl⟩ | ⟨_, _, heq, -⟩
      · exact absurd heq (by simp)
      · exact absurd heq (by simp)
      · cases call <;> exact (List.append_nil _).symm
      · exact absurd heq (by simp)
  | restart degraded now => exact absurd rfl (hop degraded now)

end ServerRuntime

/-! ### The app -/

/-- The calls from outside of a run of a server, as far as its history tells of them. -/
theorem askedFor_exec {S S' : System} {n : Nat} {labels : List System.Op}
    (h : exec System.step S labels = some S') (hlabels : ∀ op ∈ labels, isRestart (n, op) = false) :
    ServerRuntime.askedFor S'.server.log =
      ServerRuntime.askedFor S.server.log ++ (App.outsideCalls labels).filter Call.isNoted := by
  induction labels generalizing S with
  | nil =>
      rw [Option.some.inj h]
      exact (List.append_nil _).symm
  | cons op labels ih =>
      obtain ⟨S₁, hstep, hrest⟩ := Option.bind_eq_some_iff.mp h
      have hone : ServerRuntime.askedFor S₁.server.log = ServerRuntime.askedFor S.server.log ++
          (App.outsideCalls [op]).filter Call.isNoted := by
        rcases System.step_cases hstep with ⟨sop, rfl, hserver, -⟩ | ⟨eop, rfl, -, hserver⟩
        · have hop := hlabels _ List.mem_cons_self
          rw [ServerRuntime.askedFor_step hserver fun degraded now heq => by
            simp [heq, isRestart] at hop]
          congr 1
          cases sop with
          | call call now => cases call <;> rfl
          | _ => rfl
        · rw [hserver]
          exact (List.append_nil _).symm
      have hcons : App.outsideCalls (op :: labels) =
          App.outsideCalls [op] ++ App.outsideCalls labels := by
        show App.outsideCalls ([op] ++ labels) = _
        exact List.filterMap_append
      rw [ih hrest fun op' hop' => hlabels op' (List.mem_cons_of_mem _ hop'), hone, hcons,
        List.filter_append, List.append_assoc]

namespace App

/-- **What was asked for is what came to pass.** In every run of the app, the history of a server
shows the requests that were routed to it and the power-offs by hand that the backend was called
for: one for each request and for each order of the monitor that the app accepted, in their order,
and no other. -/
theorem history_as_asked {platform : Platform} {tables : Topology.RelayApp}
    {rows : String → ServerRow} {degraded : Bool} {now : Time} {A₀ A : App} {ops : List Op}
    (hstart : App.start platform tables rows degraded now = some A₀)
    (hrun : Run (Steps (App.step platform) Any) A₀ ops A) {n : Nat} {S : System}
    (hS : A.systems[n]? = some S) :
    ServerRuntime.askedFor S.server.log = (A.callsFor platform n).filter Call.isNoted := by
  obtain ⟨server, S₀, labels, -, hserver, hexec, hlabels, hcalls⟩ :=
    component_of_run hstart hrun hS
  have hempty : ServerRuntime.askedFor S₀.server.log = [] := by
    obtain ⟨config, -, hrest⟩ := Option.bind_eq_some_iff.mp hserver
    obtain ⟨cfgs, -, heq⟩ := Option.bind_eq_some_iff.mp hrest
    rw [← Option.some.inj heq]
    rfl
  rw [askedFor_exec hexec hlabels, hempty, List.nil_append, hcalls]

theorem history_as_asked_threeRequests :
    ∃ (A : App) (S : System), A.systems[0]? = some S ∧
      ServerRuntime.askedFor S.server.log = [.onRoutedTraffic, .onRoutedTraffic, .powerOff] := by
  obtain ⟨A₀, A, hstart, hrun, hview⟩ := run_threeRequests
  simp only [Prod.mk.injEq] at hview
  have hS : A.systems[0]? = some (A.systems.get ⟨0, by omega⟩) :=
    List.getElem?_eq_getElem (by omega)
  refine ⟨A, _, hS, ?_⟩
  rw [history_as_asked hstart hrun hS, hview.2.1]
  rfl

end App

end Relay
