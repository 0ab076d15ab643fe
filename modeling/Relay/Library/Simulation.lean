import Relay.Library.Drain
import Relay.Library.Runs

/-!
# Relay.Library.Simulation

**Two levels of one machine.** `abs` maps the states of a concrete machine to those of an abstract
one. Where every concrete step is a short run of the abstract machine, every concrete run is a run
of it (`exec_simulates`), and what the steps of the abstract run put out is what those of the
concrete run put out (`trace_simulates`). `drain_simulates` is the same for a loop that takes
items from a waiting list.
-/

namespace Simulation

variable {σ ℓ τ m β γ : Type*}

/-- What the steps of a run put out, in order. -/
def trace (step : σ → ℓ → Option σ) (out : σ → ℓ → List β) : σ → List ℓ → List β
  | _, [] => []
  | s, l :: ls => out s l ++ ((step s l).map (fun t => trace step out t ls)).getD []

variable {step : σ → ℓ → Option σ} {step' : τ → m → Option τ}

theorem trace_cons {out : σ → ℓ → List β} {s t : σ} {l : ℓ} (h : step s l = some t)
    (ls : List ℓ) : trace step out s (l :: ls) = out s l ++ trace step out t ls := by
  simp [trace, h]

theorem trace_append (out : σ → ℓ → List β) {ls : List ℓ} {s t : σ}
    (h : Runs.exec step s ls = some t) (ls' : List ℓ) :
    trace step out s (ls ++ ls') = trace step out s ls ++ trace step out t ls' := by
  induction ls generalizing s with
  | nil =>
      obtain rfl := Option.some.inj h
      rfl
  | cons l ls ih =>
      obtain ⟨u, hu, hrest⟩ := Option.bind_eq_some_iff.mp h
      rw [List.cons_append, trace_cons hu, trace_cons hu, ih hrest, List.append_assoc]

/-- **Forward simulation.** If every concrete step from a state that satisfies the invariant is
the abstract run `labels` gives, a concrete run is the abstract run of all these labels. -/
theorem exec_simulates {abs : σ → τ} {labels : σ → ℓ → List m} {I : σ → Prop}
    (hI : ∀ s l t, I s → step s l = some t → I t)
    (hstep : ∀ s l t, I s → step s l = some t →
      Runs.exec step' (abs s) (labels s l) = some (abs t)) {ls : List ℓ} {s t : σ} (hs : I s)
    (h : Runs.exec step s ls = some t) :
    Runs.exec step' (abs s) (trace step labels s ls) = some (abs t) := by
  induction ls generalizing s with
  | nil =>
      obtain rfl := Option.some.inj h
      rfl
  | cons l ls ih =>
      obtain ⟨u, hu, hrest⟩ := Option.bind_eq_some_iff.mp h
      rw [trace_cons hu, Runs.exec_append, hstep s l u hs hu]
      exact ih (hI s l u hs hu) hrest

/-- What the steps put out, under the same simulation: if the abstract run of every concrete step
puts out what the step does, up to `f`, so does the run. -/
theorem trace_simulates {abs : σ → τ} {labels : σ → ℓ → List m} {I : σ → Prop}
    {out : σ → ℓ → List β} {out' : τ → m → List γ} {f : β → γ}
    (hI : ∀ s l t, I s → step s l = some t → I t)
    (hstep : ∀ s l t, I s → step s l = some t →
      Runs.exec step' (abs s) (labels s l) = some (abs t))
    (hout : ∀ s l t, I s → step s l = some t →
      trace step' out' (abs s) (labels s l) = (out s l).map f) {ls : List ℓ} {s t : σ} (hs : I s)
    (h : Runs.exec step s ls = some t) :
    trace step' out' (abs s) (trace step labels s ls) = (trace step out s ls).map f := by
  induction ls generalizing s with
  | nil => rfl
  | cons l ls ih =>
      obtain ⟨u, hu, hrest⟩ := Option.bind_eq_some_iff.mp h
      rw [trace_cons hu, trace_cons hu, List.map_append, ← hout s l u hs hu,
        ← ih (hI s l u hs hu) hrest]
      exact trace_append out' (hstep s l u hs hu) _

/-- A potential that every step lowers by at least what it puts out of a kind bounds what a run
puts out of that kind. -/
theorem countP_trace_le {out : σ → ℓ → List β} {kind : β → Bool} {potential : σ → Nat}
    {I : σ → Prop} {ok : ℓ → Prop} (hI : ∀ s l t, I s → step s l = some t → I t)
    (hstep : ∀ s l t, I s → ok l → step s l = some t →
      (out s l).countP kind + potential t ≤ potential s) {ls : List ℓ} {s t : σ} (hs : I s)
    (hok : ∀ l ∈ ls, ok l) (h : Runs.exec step s ls = some t) :
    (trace step out s ls).countP kind + potential t ≤ potential s := by
  induction ls generalizing s with
  | nil =>
      obtain rfl := Option.some.inj h
      simp [trace]
  | cons l ls ih =>
      obtain ⟨u, hu, hrest⟩ := Option.bind_eq_some_iff.mp h
      have hhead := hstep s l u hs (hok l List.mem_cons_self) hu
      have htail := ih (hI s l u hs hu) (fun l' hl' => hok l' (List.mem_cons_of_mem _ hl')) hrest
      rw [trace_cons hu, List.countP_append]
      omega

variable {α : Type*} {next : σ → Option (α × σ)} {next' : τ → Option (β × τ)}

/-- A loop whose iterations are those of an abstract loop takes the same items and ends in the
same state. -/
theorem drain_simulates {abs : σ → τ} {f : σ → α → β} {I : σ → Prop}
    (hI : ∀ s a t, I s → next s = some (a, t) → I t)
    (hnext : ∀ s, I s → (next s).map (fun p => (f s p.1, abs p.2)) = next' (abs s)) :
    ∀ (n : Nat) (s : σ), I s → abs (Drain.drain next n s) = Drain.drain next' n (abs s) ∧
      (Drain.picks next n s).map (fun p => (abs p.1, f p.1 p.2)) = Drain.picks next' n (abs s)
  | 0, _, _ => ⟨rfl, rfl⟩
  | n + 1, s, hs => by
      unfold Drain.drain Drain.picks
      have hsim := hnext s hs
      cases hn : next s with
      | none =>
          rw [hn, Option.map_none] at hsim
          simp [← hsim]
      | some p =>
          rw [hn, Option.map_some] at hsim
          have hrest := drain_simulates hI hnext n p.2 (hI s p.1 p.2 hs hn)
          simp [← hsim, hrest.1, hrest.2]

end Simulation
