import Mathlib.Data.List.Basic
import Mathlib.Data.List.Count

/-!
# Relay.Library.Batch

**Deleting in batches.** A deletion that takes at most a batch of the items that meet a condition
is repeated until it takes fewer. Which items a deletion takes is left open, and so is whether it
fails.

* `rounds` is the number of deletions: one more than there are full batches, also when the last
  batch is full;
* `deleteAll_eq` is the whole loop: the first failure among that many deletions, or the list
  without the items and their number.
-/

namespace Batch

variable {α ε : Type}

/-- A deletion of items that meet a condition, as many as there are up to a limit: the list it
leaves, and the number it reports. -/
structure Deletion (α : Type) where
  run : (α → Bool) → Nat → List α → List α × Nat
  sublist : ∀ p n l, (run p n l).1.Sublist l
  /-- No item is deleted that does not meet the condition. -/
  keeps : ∀ p n l, (run p n l).1.filter (fun a => !p a) = l.filter (fun a => !p a)
  length_add : ∀ p n l, (run p n l).1.length + min n (l.countP p) = l.length
  reports : ∀ p n l, (run p n l).2 = min n (l.countP p)

theorem countP_add_length_filter (p : α → Bool) (l : List α) :
    l.countP p + (l.filter (fun a => !p a)).length = l.length := by
  simpa [List.countP_eq_length_filter] using (List.length_eq_countP_add_countP p (l := l)).symm

namespace Deletion

variable (d : Deletion α) (p : α → Bool) (n : Nat) (l : List α)

/-- What is deleted meets the condition. -/
theorem countP_add : (d.run p n l).1.countP p + (d.run p n l).2 = l.countP p := by
  have hkept := countP_add_length_filter p (d.run p n l).1
  have hall := countP_add_length_filter p l
  rw [d.keeps] at hkept
  have hlength := d.length_add p n l
  have hreports := d.reports p n l
  omega

variable {p n l}

theorem countP_lt (hn : 0 < n) (hfull : ¬ (d.run p n l).2 < n) :
    (d.run p n l).1.countP p < l.countP p := by
  have hcount := d.countP_add p n l
  omega

/-- A batch that is not full is the last one. -/
theorem eq_filter (hshort : (d.run p n l).2 < n) :
    (d.run p n l).1 = l.filter (fun a => !p a) := by
  have hcount := d.countP_add p n l
  have hreports := d.reports p n l
  rw [← d.keeps p n l, eq_comm, List.filter_eq_self]
  have hnone : (d.run p n l).1.countP p = 0 := by omega
  simpa using List.countP_eq_zero.mp hnone

end Deletion

/-- The deletion of the first items that meet the condition. -/
def deleteFirst (p : α → Bool) : Nat → List α → List α × Nat
  | _, [] => ([], 0)
  | 0, l => (l, 0)
  | n + 1, a :: l =>
      if p a then ((deleteFirst p n l).1, (deleteFirst p n l).2 + 1)
      else (a :: (deleteFirst p (n + 1) l).1, (deleteFirst p (n + 1) l).2)

/-- A deletion that goes through the list from its head. -/
def Deletion.first : Deletion α where
  run := deleteFirst
  sublist := by
    intro p n l
    induction l generalizing n with
    | nil => cases n <;> exact List.Sublist.refl _
    | cons a l ih =>
        cases n with
        | zero => exact List.Sublist.refl _
        | succ n =>
            unfold deleteFirst
            split
            · exact (ih n).cons a
            · exact (ih (n + 1)).cons_cons a
  keeps := by
    intro p n l
    induction l generalizing n with
    | nil => cases n <;> rfl
    | cons a l ih =>
        cases n with
        | zero => rfl
        | succ n => by_cases h : p a <;> simp [deleteFirst, h, ih]
  length_add := by
    intro p n l
    induction l generalizing n with
    | nil => cases n <;> simp [deleteFirst]
    | cons a l ih =>
        cases n with
        | zero => simp [deleteFirst]
        | succ n =>
            have hrest := ih n
            have hnext := ih (n + 1)
            by_cases h : p a <;> simp [deleteFirst, h] <;> omega
  reports := by
    intro p n l
    induction l generalizing n with
    | nil => cases n <;> simp [deleteFirst]
    | cons a l ih =>
        cases n with
        | zero => simp [deleteFirst]
        | succ n => by_cases h : p a <;> simp [deleteFirst, h, ih]

/-! ### The loop -/

/-- Deletes in batches, from the deletion of index `k` on, until one is not full. Returns what is
left, the total, and the index of the next deletion. -/
def deleteAll (deletion : Nat → Deletion α) (failure : Nat → Option ε) (p : α → Bool) {batch : Nat}
    (hbatch : 0 < batch) (k : Nat) (l : List α) (total : Nat) : Except ε (List α × Nat × Nat) :=
  match failure k with
  | some e => .error e
  | none =>
      if hfull : ((deletion k).run p batch l).2 < batch then
        .ok (((deletion k).run p batch l).1, total + ((deletion k).run p batch l).2, k + 1)
      else
        deleteAll deletion failure p hbatch (k + 1) ((deletion k).run p batch l).1
          (total + ((deletion k).run p batch l).2)
termination_by l.countP p
decreasing_by exact (deletion k).countP_lt hbatch hfull

/-- The number of deletions where `n` items meet the condition. -/
def rounds (batch n : Nat) : Nat := n / batch + 1

/-- The first failure among `n` deletions, from the one of index `k` on. -/
def firstFailure (failure : Nat → Option ε) (k n : Nat) : Option ε :=
  (List.range' k n).findSome? failure

theorem firstFailure_succ (failure : Nat → Option ε) (k n : Nat) :
    firstFailure failure k (n + 1) = (failure k).or (firstFailure failure (k + 1) n) := by
  unfold firstFailure
  rw [List.range'_succ, List.findSome?_cons]
  cases failure k <;> rfl

theorem firstFailure_add (failure : Nat → Option ε) (k m n : Nat) :
    firstFailure failure k (m + n) =
      (firstFailure failure k m).or (firstFailure failure (k + m) n) := by
  unfold firstFailure
  rw [← List.range'_append_1, List.findSome?_append]

theorem rounds_of_lt {batch n : Nat} (h : n < batch) : rounds batch n = 1 := by
  rw [rounds, Nat.div_eq_of_lt h]

theorem rounds_of_full {batch n : Nat} (hbatch : 0 < batch) (h : batch ≤ n) :
    rounds batch n = rounds batch (n - batch) + 1 := by
  rw [rounds, Nat.div_eq_sub_div hbatch h, rounds]

/-- **Batches together are one filter.** -/
theorem deleteAll_eq (deletion : Nat → Deletion α) (failure : Nat → Option ε) (p : α → Bool)
    {batch : Nat} (hbatch : 0 < batch) (k : Nat) (l : List α) (total : Nat) :
    deleteAll deletion failure p hbatch k l total =
      match firstFailure failure k (rounds batch (l.countP p)) with
      | some e => .error e
      | none => .ok (l.filter (fun a => !p a), total + l.countP p,
          k + rounds batch (l.countP p)) := by
  fun_induction deleteAll deletion failure p hbatch k l total with
  | case1 k l total e he => rw [rounds, firstFailure_succ, he, Option.some_or]
  | case2 k l total hnone hshort =>
      have hcount := (deletion k).countP_add p batch l
      have hreports := (deletion k).reports p batch l
      have hlast : l.countP p < batch := by omega
      rw [rounds_of_lt hlast, firstFailure_succ, hnone, (deletion k).eq_filter hshort]
      have hall : ((deletion k).run p batch l).2 = l.countP p := by omega
      rw [hall]
      rfl
  | case3 k l total hnone hfull ih =>
      have hcount := (deletion k).countP_add p batch l
      have hreports := (deletion k).reports p batch l
      have hleft : ((deletion k).run p batch l).1.countP p = l.countP p - batch := by omega
      have hrounds := rounds_of_full hbatch (n := l.countP p) (by omega)
      have htotal : total + ((deletion k).run p batch l).2 + (l.countP p - batch) =
          total + l.countP p := by omega
      have hnext : k + 1 + rounds batch (l.countP p - batch) = k + rounds batch (l.countP p) := by
        omega
      rw [ih, hleft, (deletion k).keeps, htotal, hnext, hrounds, firstFailure_succ, hnone,
        Option.none_or]

end Batch
