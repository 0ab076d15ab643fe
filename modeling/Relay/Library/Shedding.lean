import Mathlib.Data.List.DropRight

/-!
# Relay.Library.Shedding

**A bounded buffer that sheds its oldest items.** `push bound` appends an item to a buffer,
and drops the item at the front first when the buffer has reached its bound, as a deque of
bounded length does. Whatever has been pushed, the buffer holds the last `bound` items
(`push_rtake`), and an item is shed exactly when the buffer does not grow (`length_push`).
-/

namespace Shedding

variable {α : Type*} {bound : Nat} {buffer : List α}

/-- Appends an item; a full buffer sheds its oldest one. -/
def push (bound : Nat) (buffer : List α) (a : α) : List α :=
  (if bound ≤ buffer.length then buffer.tail else buffer) ++ [a]

/-- Each push adds an item to the buffer or to what has been shed. -/
theorem length_push (hbound : 0 < bound) (buffer : List α) (a : α) :
    (push bound buffer a).length + (if bound ≤ buffer.length then 1 else 0) =
      buffer.length + 1 := by
  unfold push
  split
  · simp
    omega
  · simp

/-- A push makes up no item. -/
theorem push_sublist (bound : Nat) (buffer : List α) (a : α) :
    (push bound buffer a).Sublist (buffer ++ [a]) := by
  refine List.Sublist.append ?_ (List.Sublist.refl _)
  split
  · exact List.tail_sublist buffer
  · exact List.Sublist.refl buffer

theorem length_push_le (hbound : 0 < bound) (h : buffer.length ≤ bound) (a : α) :
    (push bound buffer a).length ≤ bound := by
  unfold push
  split
  · simp
    omega
  · simp
    omega

/-- **The buffer holds the last items.** -/
theorem push_rtake (hbound : 0 < bound) (l : List α) (a : α) :
    push bound (l.rtake bound) a = (l ++ [a]).rtake bound := by
  obtain ⟨n, rfl⟩ : ∃ n, bound = n + 1 := ⟨bound - 1, by omega⟩
  rw [List.rtake_concat_succ]
  unfold push
  congr 1
  by_cases hfull : n + 1 ≤ l.length
  · -- the buffer is full, and its tail are the last `n` items
    have hlength : (l.rtake (n + 1)).length = n + 1 := by
      rw [List.rtake, List.length_drop]
      omega
    rw [if_pos hlength.ge, List.rtake, List.rtake, List.tail_drop]
    congr 1
    omega
  · have hall : l.rtake (n + 1) = l := by
      rw [List.rtake, show l.length - (n + 1) = 0 by omega, List.drop_zero]
    rw [hall, if_neg hfull, List.rtake, show l.length - n = 0 by omega, List.drop_zero]

end Shedding
