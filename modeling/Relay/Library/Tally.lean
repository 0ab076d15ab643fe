import Mathlib.Data.List.Induction
import Mathlib.Data.List.Infix

/-!
# Relay.Library.Tally

**Tables that forget.** A table keeps one entry for each key it has seen something of, and a sweep
removes the entries that have become stale. `since` is what there is to know of a key in such a
table: what was seen of it since a sweep last found it stale. A table is right when its entry of
every key is made from `since`.

`since` is a final piece of everything that was seen of the key (`since_suffix`), and what was seen
before it was found stale before anything of it was seen (`exists_sweep`).
-/

namespace Tally

/-- What happens to a table. -/
inductive Event (κ α τ : Type*)
  | seen (key : κ) (what : α)
  | swept (at' : τ)

variable {κ α τ : Type*} [DecidableEq κ] {stale : τ → α → Bool} {k : κ} {what : α}

/-- What an event shows of a key. -/
def Event.sighting? (k : κ) : Event κ α τ → Option α
  | .seen key what => if key = k then some what else none
  | .swept _ => none

/-- Everything that was seen of a key. -/
def sightings (k : κ) (history : List (Event κ α τ)) : List α :=
  history.filterMap (Event.sighting? k)

/-- What there is to know of a key after an event. A key is as stale as what was last seen
of it. -/
def sinceStep (stale : τ → α → Bool) (k : κ) (known : List α) : Event κ α τ → List α
  | .seen key what => if key = k then known ++ [what] else known
  | .swept at' => if known.getLast?.any (stale at') then [] else known

/-- What was seen of a key since a sweep last found it stale. -/
def since (stale : τ → α → Bool) (k : κ) (history : List (Event κ α τ)) : List α :=
  history.foldl (sinceStep stale k) []

@[simp] theorem sightings_nil : sightings k ([] : List (Event κ α τ)) = [] := rfl

@[simp] theorem since_nil : since stale k ([] : List (Event κ α τ)) = [] := rfl

variable {history later : List (Event κ α τ)}

theorem sightings_append : sightings k (history ++ later) =
    sightings k history ++ sightings k later := by
  unfold sightings
  exact List.filterMap_append

theorem sightings_snoc_self : sightings k (history ++ [.seen k what]) =
    sightings k history ++ [what] := by
  simp [sightings, Event.sighting?]

theorem sightings_snoc_of_ne {key : κ} (h : key ≠ k) :
    sightings k (history ++ [.seen key what]) = sightings k history := by
  simp [sightings, Event.sighting?, h]

@[simp] theorem sightings_snoc_swept {at' : τ} :
    sightings k (history ++ [.swept at']) = sightings k history := by
  simp [sightings, Event.sighting?]

theorem since_snoc (event : Event κ α τ) : since stale k (history ++ [event]) =
    sinceStep stale k (since stale k history) event := by
  simp [since, List.foldl_append]

theorem since_snoc_seen {key : κ} : since stale k (history ++ [.seen key what]) =
    if key = k then since stale k history ++ [what] else since stale k history :=
  since_snoc _

theorem since_snoc_swept {at' : τ} : since stale k (history ++ [.swept at']) =
    if (since stale k history).getLast?.any (stale at') then [] else since stale k history :=
  since_snoc _

/-- What is known of a key is the last of what was seen of it. -/
theorem since_suffix (stale : τ → α → Bool) (k : κ) (history : List (Event κ α τ)) :
    since stale k history <:+ sightings k history := by
  induction history using List.reverseRecOn with
  | nil => exact List.suffix_refl []
  | append_singleton history event ih =>
      rw [since_snoc]
      cases event with
      | seen key what =>
          by_cases hkey : key = k
          · subst hkey
            rw [sightings_snoc_self]
            obtain ⟨forgotten, hforgotten⟩ := ih
            refine ⟨forgotten, ?_⟩
            simp [sinceStep, ← hforgotten]
          · rw [sightings_snoc_of_ne hkey]
            simpa [sinceStep, hkey] using ih
      | swept at' =>
          rw [sightings_snoc_swept]
          simp only [sinceStep]
          split
          · exact List.nil_suffix
          · exact ih

/-- **What is forgotten was stale.** Between what is forgotten of a key and what is known of it
there was a sweep that found the last of the forgotten stale. -/
theorem exists_sweep {forgotten : List α} {last : α}
    (hsplit : forgotten ++ since stale k history = sightings k history)
    (hlast : forgotten.getLast? = some last) :
    ∃ before at' after, history = before ++ .swept at' :: after ∧ stale at' last = true ∧
      sightings k before = forgotten ∧ sightings k after = since stale k history := by
  induction history using List.reverseRecOn with
  | nil =>
      obtain ⟨rfl, -⟩ := List.append_eq_nil_iff.mp hsplit
      exact absurd hlast (by simp)
  | append_singleton history event ih =>
      -- unless the event is the sweep that forgets, what was forgotten is forgotten already
      have hbefore : ∀ known, sightings k [event] = known →
          since stale k (history ++ [event]) = since stale k history ++ known →
          forgotten ++ since stale k history = sightings k history →
          ∃ before at' after, history ++ [event] = before ++ .swept at' :: after ∧
            stale at' last = true ∧ sightings k before = forgotten ∧
            sightings k after = since stale k (history ++ [event]) := by
        intro known hknown hsince hsplit
        obtain ⟨before, at', after, rfl, hstale, hforgotten, hafter⟩ := ih hsplit
        refine ⟨before, at', after ++ [event], by simp, hstale, hforgotten, ?_⟩
        rw [sightings_append, hafter, hknown, hsince]
      cases event with
      | seen key what =>
          rw [since_snoc_seen] at hsplit hbefore ⊢
          by_cases hkey : key = k
          · subst hkey
            rw [if_pos rfl] at hsplit hbefore ⊢
            rw [sightings_snoc_self, ← List.append_assoc] at hsplit
            exact hbefore [what] (by simp [sightings, Event.sighting?]) rfl
              (List.append_cancel_right hsplit)
          · rw [if_neg hkey] at hsplit hbefore ⊢
            rw [sightings_snoc_of_ne hkey] at hsplit
            exact hbefore [] (by simp [sightings, Event.sighting?, hkey]) (by simp) hsplit
      | swept at' =>
          rw [since_snoc_swept] at hsplit hbefore ⊢
          rw [sightings_snoc_swept] at hsplit
          cases hstale : (since stale k history).getLast?.any (stale at') with
          | false =>
              simp only [hstale, Bool.false_eq_true, if_false] at hsplit hbefore ⊢
              exact hbefore [] rfl (by simp) hsplit
          | true =>
              simp only [hstale, if_true, List.append_nil] at hsplit ⊢
              refine ⟨history, at', [], rfl, ?_, hsplit.symm, rfl⟩
              obtain ⟨gone, hgone⟩ := since_suffix stale k history
              obtain ⟨known, hknown, hat⟩ := (Option.any_eq_true _ _).mp hstale
              have hsame : known = last := by
                have hne : since stale k history ≠ [] := by
                  rintro hnil
                  exact absurd (hnil ▸ hknown) (by simp)
                rw [hsplit, ← hgone, List.getLast?_append_of_ne_nil _ hne] at hlast
                exact Option.some.inj (hknown.symm.trans hlast)
              exact hsame ▸ hat

end Tally
