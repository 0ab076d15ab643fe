import Mathlib.Algebra.BigOperators.Group.List.Basic
import Mathlib.Algebra.GroupWithZero.Nat
import Mathlib.Algebra.Order.BigOperators.Group.List
import Mathlib.Data.List.Nodup

/-!
# Relay.Library.Counting

Counting the members of a list that satisfy a predicate, while the list changes
by the operations mutable programs use: removal of a member, replacement in
place, and filing each member under one of several owners.
-/

namespace Counting

variable {α β : Type*}

theorem countP_erase_add [DecidableEq α] (p : α → Bool) {l : List α} {a : α} (h : a ∈ l) :
    (l.erase a).countP p + (if p a then 1 else 0) = l.countP p := by
  rw [(List.perm_cons_erase h).countP_eq, List.countP_cons]

/-- Replacing the member at position `i`. -/
theorem countP_set_add (p : α → Bool) {l : List α} {i : Nat} {a b : α} (h : l[i]? = some a) :
    (l.set i b).countP p + (if p a then 1 else 0) = l.countP p + (if p b then 1 else 0) := by
  obtain ⟨hi, ha⟩ := List.getElem?_eq_some_iff.mp h
  have hpos : p a = true → 0 < l.countP p := fun hp =>
    List.countP_pos_iff.mpr ⟨a, List.mem_of_getElem? h, hp⟩
  rw [List.countP_set hi, ha]
  split
  · have := hpos ‹_›
    omega
  · omega

/-- What the members contribute, when one is replaced. -/
theorem flatMap_set_perm (f : α → List β) {l : List α} {i : Nat} {a b : α} (h : l[i]? = some a) :
    ((l.set i b).flatMap f ++ f a).Perm (l.flatMap f ++ f b) := by
  induction l generalizing i with
  | nil => exact absurd h (by simp)
  | cons c l ih =>
      cases i with
      | zero =>
          obtain rfl : c = a := Option.some.inj h
          rw [List.set_cons_zero, List.flatMap_cons, List.flatMap_cons, List.append_assoc,
            List.append_assoc]
          refine List.perm_append_comm.trans ?_
          rw [List.append_assoc]
          exact List.perm_append_comm_assoc _ _ _
      | succ i =>
          rw [List.set_cons_succ, List.flatMap_cons, List.flatMap_cons, List.append_assoc,
            List.append_assoc]
          exact (ih h).append_left (f c)

theorem sum_indicator_eq_count [DecidableEq β] (b : β) (owners : List β) :
    (owners.map (fun o => if b = o then 1 else 0)).sum = owners.count b := by
  induction owners with
  | nil => rfl
  | cons o owners ih =>
      rw [List.map_cons, List.sum_cons, ih, List.count_cons]
      by_cases h : b = o
      · simp [h, Nat.add_comm]
      · simp [h, Ne.symm h]

/-- The members of `l` that have an owner are filed under exactly one of the owners, so
the shares of the owners add up to their number. -/
theorem sum_countP_eq_countP [DecidableEq β] (f : α → Option β) {owners : List β}
    (hnd : owners.Nodup) {l : List α} (h : ∀ a ∈ l, ∀ b, f a = some b → b ∈ owners) :
    (owners.map (fun b => l.countP (fun a => decide (f a = some b)))).sum =
      l.countP (fun a => (f a).isSome) := by
  induction l with
  | nil => simp
  | cons a l ih =>
      have hrest := ih fun x hx => h x (List.mem_cons_of_mem a hx)
      have hone : (owners.map (fun b => if f a = some b then 1 else 0)).sum =
          if (f a).isSome then 1 else 0 := by
        cases hf : f a with
        | none => simp
        | some b =>
            have hmem := h a List.mem_cons_self b hf
            simpa [List.count_eq_one_of_mem hnd hmem] using sum_indicator_eq_count b owners
      simp only [List.countP_cons, decide_eq_true_eq, List.sum_map_add, hrest, hone]

/-- Every member of `l` is filed under exactly one of the owners, so the shares of
the owners add up to the length. -/
theorem sum_countP_eq_length [DecidableEq β] (f : α → β) {owners : List β}
    (hnd : owners.Nodup) {l : List α} (h : ∀ a ∈ l, f a ∈ owners) :
    (owners.map (fun b => l.countP (fun a => f a = b))).sum = l.length := by
  have hsum := sum_countP_eq_countP (fun a => some (f a)) hnd (l := l)
    fun a ha b hb => Option.some.inj hb ▸ h a ha
  simpa using hsum

/-- Members without a share do not matter for a sum. -/
theorem sum_map_filter {M : Type*} [AddMonoid M] (p : α → Bool) (f : α → M) {l : List α}
    (h : ∀ a ∈ l, p a = false → f a = 0) : ((l.filter p).map f).sum = (l.map f).sum := by
  induction l with
  | nil => rfl
  | cons a l ih =>
      have hrest := ih fun x hx => h x (List.mem_cons_of_mem a hx)
      rw [List.map_cons, List.sum_cons, ← hrest, List.filter_cons]
      cases hp : p a with
      | true => simp
      | false => simp [h a List.mem_cons_self hp]

end Counting
