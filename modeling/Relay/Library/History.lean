import Mathlib.Data.List.Induction

/-!
# Relay.Library.History

**Objects with a life cycle.** A history is a list of events, each about one object. A
life cycle is a partial automaton `next : σ → ε → Option σ`; `stage` is where the history
has brought an object, and `none` when some event was not possible in the stage the
object was in.

What an object has been through can be read off its stage: `countP_of_stage` counts the
events of a kind by a potential on the stages.

`Always P` says that every event of a history was right when it happened, in the light of
the history before it.
-/

namespace History

variable {ε κ σ : Type*} [DecidableEq κ]

/-- The stage a history brings the object `k` to, from `start`. -/
def stage (next : σ → ε → Option σ) (start : σ) (key : ε → κ) (log : List ε) (k : κ) :
    Option σ :=
  log.foldl (fun st event => if key event = k then st.bind (fun s => next s event) else st)
    (some start)

variable {next : σ → ε → Option σ} {start : σ} {key : ε → κ}

@[simp] theorem stage_nil (k : κ) : stage next start key [] k = some start := rfl

theorem stage_snoc (log : List ε) (event : ε) (k : κ) :
    stage next start key (log ++ [event]) k =
      if key event = k then (stage next start key log k).bind (fun s => next s event)
      else stage next start key log k := by
  simp [stage, List.foldl_append]

/-- When every step of the automaton raises a potential exactly at the events of a kind,
the potential of a stage is the number of such events in the history of the object. -/
theorem countP_of_stage {kind : ε → Bool} (potential : σ → Nat)
    (hnext : ∀ s event s', next s event = some s' →
      potential s' = potential s + if kind event then 1 else 0)
    (hstart : potential start = 0) {k : κ} (log : List ε) {s : σ}
    (h : stage next start key log k = some s) :
    log.countP (fun event => kind event && decide (key event = k)) = potential s := by
  induction log using List.reverseRecOn generalizing s with
  | nil =>
      obtain rfl : start = s := by simpa using h
      rw [hstart]
      rfl
  | append_singleton log event ih =>
      rw [List.countP_append, List.countP_singleton]
      rw [stage_snoc] at h
      split at h
      · rename_i hkey
        obtain ⟨s₀, hs₀, hstep⟩ := Option.bind_eq_some_iff.mp h
        rw [ih hs₀, hnext s₀ event s hstep]
        simp [hkey]
      · rename_i hkey
        rw [ih h]
        simp [hkey]

/-! ### Events that were right when they happened -/

/-- Every event of the history satisfies `P` together with the history before it. -/
def Always (P : List ε → ε → Prop) (log : List ε) : Prop :=
  ∀ before event after, log = before ++ event :: after → P before event

theorem always_nil (P : List ε → ε → Prop) : Always P [] := by
  intro before event after h
  exact absurd h.symm (by simp)

/-- Where an event stands in a history with one more event: it is that one, or stands before. -/
theorem snoc_eq_iff {log before after : List ε} {last event : ε} :
    log ++ [last] = before ++ event :: after ↔
      (log = before ∧ last = event ∧ after = []) ∨
        ∃ rest, log = before ++ event :: rest ∧ after = rest ++ [last] := by
  constructor
  · intro h
    induction after using List.reverseRecOn with
    | nil =>
        obtain ⟨hlog, hevent⟩ := List.append_inj' h rfl
        exact Or.inl ⟨hlog, List.head_eq_of_cons_eq hevent, rfl⟩
    | append_singleton rest last' _ =>
        rw [← List.cons_append, ← List.append_assoc] at h
        obtain ⟨hlog, hlast⟩ := List.append_inj' h rfl
        exact Or.inr ⟨rest, hlog, by rw [List.head_eq_of_cons_eq hlast]⟩
  · intro h
    rcases h with ⟨rfl, rfl, rfl⟩ | ⟨rest, rfl, rfl⟩
    · rfl
    · simp

theorem always_snoc {P : List ε → ε → Prop} {log : List ε} {event : ε} :
    Always P (log ++ [event]) ↔ Always P log ∧ P log event := by
  constructor
  · intro h
    refine ⟨fun before event' after hlog => ?_, h log event [] rfl⟩
    exact h before event' (after ++ [event]) (by rw [hlog]; simp)
  · intro h before event' after heq
    rcases snoc_eq_iff.mp heq with ⟨rfl, rfl, -⟩ | ⟨rest, hlog, -⟩
    · exact h.2
    · exact h.1 before event' rest hlog

end History
