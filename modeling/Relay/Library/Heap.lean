import Mathlib.Logic.Function.Basic

/-!
# Relay.Library.Heap

**A store of mutable objects.** Programs that share objects by reference are
modelled with a `Heap`: a cell for every reference and the next unused
reference. Reading is function application, `alloc` fills the next reference and
`modify` applies a function to one cell. The lemmas are the read-over-write
equations, tagged for `simp`.
-/

/-- Cells of type `α`, of which those below `next` have been allocated. -/
structure Heap (α : Type*) where
  cell : Nat → α
  next : Nat

namespace Heap

variable {α : Type*}

instance : CoeFun (Heap α) (fun _ => Nat → α) := ⟨cell⟩

/-- The heap without any object. -/
def empty [Inhabited α] : Heap α := ⟨fun _ => default, 0⟩

/-- Stores a new object under the reference `next`. -/
def alloc (h : Heap α) (a : α) : Heap α := ⟨Function.update h.cell h.next a, h.next + 1⟩

/-- Updates the object stored under `r`. -/
def modify (h : Heap α) (r : Nat) (f : α → α) : Heap α :=
  ⟨Function.update h.cell r (f (h.cell r)), h.next⟩

@[simp] theorem empty_cell [Inhabited α] (r : Nat) : (empty : Heap α) r = default := rfl

@[simp] theorem empty_next [Inhabited α] : (empty : Heap α).next = 0 := rfl

@[simp] theorem alloc_next (h : Heap α) (a : α) : (h.alloc a).next = h.next + 1 := rfl

@[simp] theorem alloc_self (h : Heap α) (a : α) : h.alloc a h.next = a := by
  simp [alloc]

theorem alloc_of_ne (h : Heap α) (a : α) {r : Nat} (hr : r ≠ h.next) : h.alloc a r = h r := by
  simp [alloc, hr]

theorem alloc_of_lt (h : Heap α) (a : α) {r : Nat} (hr : r < h.next) : h.alloc a r = h r :=
  alloc_of_ne h a (Nat.ne_of_lt hr)

@[simp] theorem modify_next (h : Heap α) (r : Nat) (f : α → α) : (h.modify r f).next = h.next :=
  rfl

@[simp] theorem modify_self (h : Heap α) (r : Nat) (f : α → α) : h.modify r f r = f (h r) := by
  simp [modify]

theorem modify_of_ne (h : Heap α) {r r' : Nat} (f : α → α) (hr : r' ≠ r) :
    h.modify r f r' = h r' := by
  simp [modify, hr]

theorem modify_apply (h : Heap α) (r r' : Nat) (f : α → α) :
    h.modify r f r' = if r' = r then f (h r) else h r' := by
  split
  · rename_i hr
    rw [hr, modify_self]
  · rename_i hr
    exact modify_of_ne h f hr

@[simp] theorem modify_modify (h : Heap α) (r : Nat) (f g : α → α) :
    (h.modify r f).modify r g = h.modify r (g ∘ f) := by
  simp [modify]

/-- A projection that `f` leaves alone is the same in every cell afterwards. -/
theorem modify_proj {β : Type*} (π : α → β) (h : Heap α) (r : Nat) (f : α → α)
    (hf : ∀ a, π (f a) = π a) (r' : Nat) : π (h.modify r f r') = π (h r') := by
  rw [modify_apply]
  split
  · rename_i hr
    rw [hr, hf]
  · rfl

end Heap
