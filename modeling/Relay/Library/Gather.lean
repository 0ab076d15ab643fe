import Mathlib.Data.List.Dedup
import Mathlib.Data.List.Induction
import Relay.Library.OrdDict

/-!
# Relay.Library.Gather

**Lists put together without repetitions.** `gather acc xs` appends to `acc` what it does not
have yet of `xs`, in the order of `xs`; `firstPositions key xs` is the dictionary of the keys of a
list, each with the 1-based position of its first item. Where the second list repeats nothing,
gathering is appending what is new (`gather_eq_append`), and the keys of `firstPositions` come in
the order of their positions (`firstPositions_sorted`).

`List.dedup` keeps the last occurrence of each item, so `l.dedup` lists the items of a history in
the order in which they have occurred last (`dedup_snoc`).
-/

namespace Gather

variable {α κ : Type*}

/-! ### Appending what is new -/

section Distinct

variable [DecidableEq α]

/-- Appends every item that is not there yet. -/
def gather (acc xs : List α) : List α :=
  xs.foldl (fun acc x => if x ∈ acc then acc else acc ++ [x]) acc

theorem mem_gather {acc xs : List α} {a : α} : a ∈ gather acc xs ↔ a ∈ acc ∨ a ∈ xs := by
  induction xs generalizing acc with
  | nil => simp [gather]
  | cons x xs ih =>
      show a ∈ gather (if x ∈ acc then acc else acc ++ [x]) xs ↔ _
      rw [ih, List.mem_cons]
      split
      · rename_i hx
        constructor
        · tauto
        · rintro (ha | rfl | ha) <;> tauto
      · simp [or_assoc]

theorem nodup_gather {acc xs : List α} (h : acc.Nodup) : (gather acc xs).Nodup := by
  induction xs generalizing acc with
  | nil => exact h
  | cons x xs ih =>
      show (gather (if x ∈ acc then acc else acc ++ [x]) xs).Nodup
      split
      · exact ih h
      · rename_i hx
        exact ih (List.nodup_append.mpr ⟨h, List.nodup_singleton x, by grind⟩)

theorem gather_eq_append {acc xs : List α} (h : xs.Nodup) :
    gather acc xs = acc ++ xs.filter (fun x => x ∉ acc) := by
  induction xs generalizing acc with
  | nil => simp [gather]
  | cons x xs ih =>
      obtain ⟨hx, hxs⟩ := List.nodup_cons.mp h
      show gather (if x ∈ acc then acc else acc ++ [x]) xs = _
      rw [ih hxs]
      by_cases hmem : x ∈ acc
      · simp [hmem]
      · -- the items behind `x` differ from it, so it takes none of them away
        have hrest : xs.filter (fun y => y ∉ acc ++ [x]) = xs.filter (fun y => y ∉ acc) :=
          List.filter_congr fun y hy => by
            have hyx : y ≠ x := fun heq => hx (heq ▸ hy)
            simp [hyx]
        rw [if_neg hmem, hrest]
        simp [hmem]

/-! ### The order of the last occurrences -/

theorem dedup_snoc (l : List α) (a : α) :
    (l ++ [a]).dedup = l.dedup.filter (fun x => x ≠ a) ++ [a] := by
  induction l with
  | nil => simp
  | cons x l ih =>
      rw [List.cons_append]
      by_cases hx : x ∈ l
      · rw [List.dedup_cons_of_mem (List.mem_append_left _ hx), List.dedup_cons_of_mem hx, ih]
      · by_cases hxa : x = a
        · subst hxa
          rw [List.dedup_cons_of_mem (by simp), List.dedup_cons_of_notMem hx, ih]
          simp
        · rw [List.dedup_cons_of_notMem (by simp [hx, hxa]), List.dedup_cons_of_notMem hx, ih]
          simp [hxa]

end Distinct

/-! ### First positions -/

variable [DecidableEq κ]

/-- The keys of a list, each with the 1-based position of its first item. -/
def firstPositions (key : α → κ) (xs : List α) : OrdDict κ Nat :=
  (xs.zipIdx 1).foldl (fun d p => d.setDefault (key p.1) p.2) .empty

theorem firstPositions_snoc (key : α → κ) (xs : List α) (x : α) :
    firstPositions key (xs ++ [x]) =
      (firstPositions key xs).setDefault (key x) (xs.length + 1) := by
  simp [firstPositions, List.zipIdx_append, List.foldl_append, Nat.add_comm]

theorem get?_firstPositions (key : α → κ) (xs : List α) (k : κ) :
    (firstPositions key xs).get? k = (xs.findIdx? (fun x => key x = k)).map (· + 1) := by
  induction xs using List.reverseRecOn with
  | nil => rfl
  | append_singleton xs x ih =>
      rw [firstPositions_snoc, OrdDict.get?_setDefault, ih, List.findIdx?_append]
      cases hfound : xs.findIdx? (fun x => key x = k) with
      | some i => simp
      | none => by_cases hk : k = key x <;> simp [hk, eq_comm]

theorem mem_firstPositions_iff {key : α → κ} {xs : List α} {k : κ} :
    k ∈ firstPositions key xs ↔ ∃ x ∈ xs, key x = k := by
  rw [OrdDict.mem_iff_get?]
  simp [get?_firstPositions, List.findIdx?_isSome, ← Option.isSome_iff_exists]

theorem findIdx?_congr {p p' : α → Bool} {xs : List α} (h : ∀ x ∈ xs, p x = p' x) :
    xs.findIdx? p = xs.findIdx? p' := by
  induction xs with
  | nil => rfl
  | cons x xs ih =>
      rw [List.findIdx?_cons, List.findIdx?_cons, h x List.mem_cons_self,
        ih fun y hy => h y (List.mem_cons_of_mem _ hy)]

/-- A key that comes earlier has the smaller position. -/
theorem firstPositions_sorted (key : α → κ) (xs : List α) :
    (firstPositions key xs).entries.Pairwise (fun p p' => p.2 < p'.2) ∧
      ∀ p ∈ (firstPositions key xs).entries, p.2 ≤ xs.length := by
  induction xs using List.reverseRecOn with
  | nil => simp [firstPositions]
  | append_singleton xs x ih =>
      obtain ⟨hsorted, hle⟩ := ih
      rw [firstPositions_snoc, OrdDict.setDefault, List.length_append]
      split
      · exact ⟨hsorted, fun p hp => Nat.le_add_right_of_le (hle p hp)⟩
      · rename_i hnew
        rw [OrdDict.entries_insert_of_not_mem hnew]
        refine ⟨List.pairwise_append.mpr ⟨hsorted, List.pairwise_singleton _ _, ?_⟩, ?_⟩
        · intro p hp p' hp'
          obtain rfl := List.mem_singleton.mp hp'
          exact Nat.lt_succ_of_le (hle p hp)
        · intro p hp
          rcases List.mem_append.mp hp with hp | hp
          · exact Nat.le_add_right_of_le (hle p hp)
          · obtain rfl := List.mem_singleton.mp hp
            exact Nat.le_refl _

end Gather
