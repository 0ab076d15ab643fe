import Mathlib.Data.List.Sort

/-!
# Relay.Library.Drain

**Greedy draining of a waiting list.** A loop that repeatedly takes the first
item of a list that may go, where taking an item may change which others may go,
until none may. The loop is given by its single iteration `step`, which returns
the item taken and the next state; `drain` iterates it and `picks` records every
item taken together with the state it was taken in.

The rules are:

* `drain_induction` and `picks_induction` carry an invariant through the loop;
* `step_drain_eq_none`: with fuel for the length of the list, the loop ends
  because nothing may go, never because the fuel is used up;
* `drain_trace`: a trace the iterations extend lists the items taken;
* `drain_history`: an invariant that also speaks of the items taken so far;
* `drain_iff`: the exact condition on the items taken under which an invariant survives;
* `eq_or_lt_of_find?`, `sublist_of_subset` and `lt_of_pair_sublist` for waiting
  lists whose items are numbered in order of arrival.
-/

namespace Drain

variable {σ α : Type*}

/-- Iterates `step` until it returns `none`, at most `n` times. -/
def drain (step : σ → Option (α × σ)) : Nat → σ → σ
  | 0, s => s
  | n + 1, s =>
      match step s with
      | none => s
      | some p => drain step n p.2

/-- The items `drain` takes, each with the state it is taken in. -/
def picks (step : σ → Option (α × σ)) : Nat → σ → List (σ × α)
  | 0, _ => []
  | n + 1, s =>
      match step s with
      | none => []
      | some p => (s, p.1) :: picks step n p.2

variable {step : σ → Option (α × σ)}

/-- What one iteration preserves, the loop preserves. -/
theorem drain_induction {I : σ → Prop} (hstep : ∀ s a t, I s → step s = some (a, t) → I t) :
    ∀ (n : Nat) (s : σ), I s → I (drain step n s)
  | 0, _, h => h
  | n + 1, s, h => by
      unfold drain
      cases hs : step s with
      | none => exact h
      | some p => exact drain_induction hstep n p.2 (hstep s p.1 p.2 h hs)

/-- Every recorded item was taken by an iteration, in a state the loop went
through. -/
theorem picks_induction {I : σ → Prop} (hstep : ∀ s a t, I s → step s = some (a, t) → I t) :
    ∀ (n : Nat) (s : σ), I s → ∀ p ∈ picks step n s, I p.1 ∧ ∃ t, step p.1 = some (p.2, t)
  | 0, _, _, _, hp => by simp [picks] at hp
  | n + 1, s, h, p, hp => by
      unfold picks at hp
      cases hs : step s with
      | none => simp [hs] at hp
      | some q =>
          simp only [hs, List.mem_cons] at hp
          rcases hp with rfl | hp
          · exact ⟨h, q.2, hs⟩
          · exact picks_induction hstep n q.2 (hstep s q.1 q.2 h hs) p hp

/-- A loop whose iterations use up a measure does not stop for want of fuel. -/
theorem step_drain_eq_none {μ : σ → Nat} (hμ : ∀ s a t, step s = some (a, t) → μ t < μ s) :
    ∀ (n : Nat) (s : σ), μ s ≤ n → step (drain step n s) = none
  | 0, s, h => by
      cases hs : step s with
      | none => exact hs
      | some p => exact absurd (hμ s p.1 p.2 hs) (by omega)
  | n + 1, s, h => by
      unfold drain
      cases hs : step s with
      | none => exact hs
      | some p =>
          have hlt := hμ s p.1 p.2 hs
          exact step_drain_eq_none hμ n p.2 (by omega)

/-- A trace that every iteration extends by the item it takes records the items
the loop takes. -/
theorem drain_trace {β : Type*} (trace : σ → List β) {f : α → β}
    (htrace : ∀ s a t, step s = some (a, t) → trace t = trace s ++ [f a]) :
    ∀ (n : Nat) (s : σ), trace (drain step n s) =
      trace s ++ (picks step n s).map (fun p => f p.2)
  | 0, s => by simp [drain, picks]
  | n + 1, s => by
      unfold drain picks
      cases hs : step s with
      | none => simp
      | some p =>
          show trace (drain step n p.2) = _
          rw [drain_trace trace htrace n p.2, htrace s p.1 p.2 hs]
          simp

/-- What one iteration preserves together with a history that it extends, the loop
preserves with the history of all items taken. -/
theorem drain_history {β : Type*} {I : List β → σ → Prop} {f : σ → α → β}
    (hstep : ∀ log s a t, I log s → step s = some (a, t) → I (log ++ [f s a]) t) :
    ∀ (n : Nat) (log : List β) (s : σ), I log s →
      I (log ++ (picks step n s).map (fun p => f p.1 p.2)) (drain step n s)
  | 0, log, s, h => by simpa [drain, picks] using h
  | n + 1, log, s, h => by
      unfold drain picks
      cases hs : step s with
      | none => simpa using h
      | some p =>
          have hrest := drain_history hstep n _ _ (hstep log s p.1 p.2 h hs)
          simpa using hrest

theorem drain_broken {I : σ → Prop} (hbroken : ∀ s a t, ¬ I s → step s = some (a, t) → ¬ I t) :
    ∀ (n : Nat) (s : σ), ¬ I s → ¬ I (drain step n s) :=
  drain_induction hbroken

/-- **Exact condition rule.** Let an invariant survive an iteration exactly when the item
taken satisfies `P`, and let a broken invariant stay broken. Then the loop keeps the invariant
exactly when every item it takes satisfies `P`. -/
theorem drain_iff {I J : σ → Prop} {P : σ → α → Prop}
    (hJ : ∀ s a t, J s → step s = some (a, t) → J t)
    (hkeep : ∀ s a t, J s → I s → step s = some (a, t) → (I t ↔ P s a))
    (hbroken : ∀ s a t, ¬ I s → step s = some (a, t) → ¬ I t) :
    ∀ (n : Nat) (s : σ), J s → I s →
      (I (drain step n s) ↔ ∀ p ∈ picks step n s, P p.1 p.2)
  | 0, s, _, h => by simpa [drain, picks] using h
  | n + 1, s, hj, h => by
      unfold drain picks
      cases hs : step s with
      | none => simpa using h
      | some p =>
          have hp := hkeep s p.1 p.2 hj h hs
          by_cases hI : I p.2
          · have hrest := drain_iff hJ hkeep hbroken n p.2 (hJ s p.1 p.2 hj hs) hI
            simpa [hp.mp hI] using hrest
          · have hrest := drain_broken hbroken n p.2 hI
            exact iff_of_false hrest fun hall => hI (hp.mpr (hall _ List.mem_cons_self))

/-! ### Waiting lists in order of arrival -/

section Order

variable [Preorder α]

/-- In a strictly increasing list the first item that may go is no later than any
other item that may go. -/
theorem eq_or_lt_of_find? {l : List α} {p : α → Bool} {a b : α} (hl : l.Pairwise (· < ·))
    (hb : l.find? p = some b) (ha : a ∈ l) (hpa : p a = true) : a = b ∨ b < a := by
  obtain ⟨-, ahead, behind, rfl, hahead⟩ := List.find?_eq_some_iff_append.mp hb
  rcases List.mem_append.mp ha with ha | ha
  · have hnot := hahead a ha
    simp [hpa] at hnot
  · rcases List.mem_cons.mp ha with rfl | ha
    · exact Or.inl rfl
    · have hbehind := (List.pairwise_append.mp hl).2.1
      exact Or.inr ((List.pairwise_cons.mp hbehind).1 a ha)

/-- Strictly increasing lists are ordered alike on the items they share. -/
theorem sublist_of_subset {l l' : List α} (hl : l.Pairwise (· < ·)) (hl' : l'.Pairwise (· < ·))
    (hsub : l ⊆ l') : l.Sublist l' :=
  List.sublist_of_subperm_of_pairwise
    (List.subperm_of_subset (hl.imp fun h => ne_of_lt h) hsub) hl hl'

/-- What stands before an item of a strictly increasing list is less than it. -/
theorem lt_of_pair_sublist {l : List α} {a b : α} (hl : l.Pairwise (· < ·))
    (hab : [a, b].Sublist l) : a < b :=
  List.pairwise_pair.mp (hl.sublist hab)

end Order

end Drain
