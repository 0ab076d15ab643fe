import Mathlib.Data.List.Induction

/-!
# Relay.Library.Checks

**Computations that check as they go.** A validator reads its input piece by piece and stops at
the first piece it refuses. The rules for `Except` here say what a validator that succeeds has
passed: every computation of a sequence (`bind_eq_ok`), every condition it tests
(`refuse_eq_ok`), and, in a loop over a list, whatever its iterations keep (`foldlM_ok`).
-/

namespace Checks

universe u

variable {ε α : Type*} {β γ σ : Type u}

theorem bind_eq_ok {x : Except ε β} {f : β → Except ε γ} {c : γ} :
    x >>= f = .ok c ↔ ∃ b, x = .ok b ∧ f b = .ok c := by
  cases x <;> simp [bind, Except.bind]

theorem pure_eq_ok {b b' : β} : (pure b : Except ε β) = .ok b' ↔ b = b' := by
  simp [pure, Except.pure]

/-- `if condition: raise error`. -/
def refuse (condition : Prop) [Decidable condition] (error : ε) : Except ε Unit :=
  if condition then .error error else .ok ()

@[simp] theorem refuse_eq_ok {condition : Prop} [Decidable condition] {error : ε} {u : Unit} :
    refuse condition error = .ok u ↔ ¬ condition := by
  by_cases h : condition <;> simp [refuse, h]

/-- What every iteration keeps, together with the items it has been through, holds when the loop
is over. -/
theorem foldlM_ok {f : σ → α → Except ε σ} {l : List α} {I : List α → σ → Prop}
    (hstep : ∀ done s a t, done ++ [a] <+: l → I done s → f s a = .ok t → I (done ++ [a]) t)
    {s t : σ} (h : l.foldlM f s = .ok t) (hs : I [] s) : I l t := by
  induction l using List.reverseRecOn generalizing t with
  | nil =>
      obtain rfl := Except.ok.inj h
      exact hs
  | append_singleton l a ih =>
      rw [List.foldlM_append] at h
      obtain ⟨u, hu, hlast⟩ := bind_eq_ok.mp h
      rw [List.foldlM_cons] at hlast
      obtain ⟨t', ht', hnil⟩ := bind_eq_ok.mp hlast
      obtain rfl := Except.ok.inj hnil
      have hrest := ih (fun done s b t hdone => hstep done s b t
        (hdone.trans (List.prefix_append _ _))) hu
      exact hstep l u a t' (List.prefix_refl _) hrest ht'

/-- A loop none of whose iterations fails returns. -/
theorem foldlM_total {f : σ → α → Except ε σ} {I : σ → Prop} {l : List α}
    (hstep : ∀ s, ∀ a ∈ l, I s → ∃ t, f s a = .ok t ∧ I t) {s : σ} (hs : I s) :
    ∃ t, l.foldlM f s = .ok t ∧ I t := by
  induction l generalizing s with
  | nil => exact ⟨s, rfl, hs⟩
  | cons a l ih =>
      obtain ⟨u, hu, hIu⟩ := hstep s a List.mem_cons_self hs
      obtain ⟨t, ht, hIt⟩ := ih (fun s b hb => hstep s b (List.mem_cons_of_mem _ hb)) hIu
      exact ⟨t, by rw [List.foldlM_cons]; exact bind_eq_ok.mpr ⟨u, hu, ht⟩, hIt⟩

/-- An item that a loop comes to is not among those before it when no item is repeated. -/
theorem name_notMem_of_nodup {β : Type*} {name : α → β} {done l : List α} {a : α}
    (h : done ++ [a] <+: l) (hl : (l.map name).Nodup) : name a ∉ done.map name := by
  have hdone : ((done ++ [a]).map name).Nodup := hl.sublist (h.sublist.map name)
  rw [List.map_append, List.nodup_append] at hdone
  intro hmem
  exact hdone.2.2 _ hmem _ (by simp) rfl

end Checks
