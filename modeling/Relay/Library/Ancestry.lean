import Mathlib.Data.Option.Basic
import Mathlib.Order.Basic

/-!
# Relay.Library.Ancestry

**Chains of parents.** A partial function `parent` gives an element at most one parent, and
`up parent n a` is the ancestor of `a` that is `n` levels up. `ClosestAt` is the first proper
ancestor with a property, and `climb` looks for it, level by level, up to a depth.

A search often knows a part of the relation only. It finds what the full relation would have
given exactly when it knows every level below (`closestAt_part_iff`).
-/

namespace Ancestry

variable {α β : Type*} {parent known : α → Option α} {p : α → Prop} {a b c : α} {j k n : Nat}

/-- The ancestor `n` levels up. -/
def up (parent : α → Option α) : Nat → α → Option α
  | 0, a => some a
  | n + 1, a => (parent a).bind (up parent n)

@[simp] theorem up_zero : up parent 0 a = some a := rfl

theorem up_succ_eq_some :
    up parent (n + 1) a = some b ↔ ∃ c, parent a = some c ∧ up parent n c = some b :=
  Option.bind_eq_some_iff

theorem up_add (m n : Nat) (a : α) : up parent (m + n) a = (up parent m a).bind (up parent n) := by
  induction m generalizing a with
  | zero => rw [Nat.zero_add, up_zero, Option.bind_some]
  | succ m ih =>
      rw [Nat.add_right_comm]
      cases hparent : parent a with
      | none => simp [up, hparent]
      | some c => simp [up, hparent, ih]

/-- The chain has no gaps. -/
theorem exists_up_of_le (h : up parent n a = some b) (hle : j ≤ n) :
    ∃ c, up parent j a = some c ∧ up parent (n - j) c = some b := by
  rw [← Nat.add_sub_cancel' hle, up_add] at h
  exact Option.bind_eq_some_iff.mp h

/-- An element above another one is somebody's parent. -/
theorem exists_parent_of_up (h : up parent (n + 1) a = some b) : ∃ c, parent c = some b := by
  obtain ⟨c, -, hc⟩ := exists_up_of_le h (Nat.le_succ n)
  rw [Nat.add_sub_cancel_left] at hc
  obtain ⟨d, hd, hdb⟩ := up_succ_eq_some.mp hc
  exact ⟨c, hd.trans hdb⟩

/-- No element is a proper ancestor of itself. -/
def Acyclic (parent : α → Option α) : Prop := ∀ n a, up parent (n + 1) a ≠ some a

/-- A relation whose parents decrease in some order has no cycle. -/
theorem acyclic_of_rank (rank : α → Nat) (h : ∀ a b, parent a = some b → rank b < rank a) :
    Acyclic parent := by
  have hlt : ∀ n a b, up parent (n + 1) a = some b → rank b < rank a := by
    intro n
    induction n with
    | zero =>
        intro a b hab
        obtain ⟨c, hc, hcb⟩ := up_succ_eq_some.mp hab
        obtain rfl := Option.some.inj hcb
        exact h a c hc
    | succ n ih =>
        intro a b hab
        obtain ⟨c, hc, hcb⟩ := up_succ_eq_some.mp hab
        exact Nat.lt_trans (ih c b hcb) (h a c hc)
  intro n a hcycle
  exact Nat.lt_irrefl _ (hlt n a a hcycle)

/-! ### A part of the relation -/

/-- What is known of the parents is right. -/
def Part (known parent : α → Option α) : Prop := ∀ a b, known a = some b → parent a = some b

theorem Part.up (h : Part known parent) (hup : up known n a = some b) : up parent n a = some b := by
  induction n generalizing a with
  | zero => exact hup
  | succ n ih =>
      obtain ⟨c, hc, hcb⟩ := up_succ_eq_some.mp hup
      exact up_succ_eq_some.mpr ⟨c, h a c hc, ih hcb⟩

theorem Part.acyclic (h : Part known parent) (hparent : Acyclic parent) : Acyclic known :=
  fun n a hcycle => hparent n a (h.up hcycle)

/-- Where all levels below are known, the known chain is the chain. -/
theorem Part.up_eq (h : Part known parent)
    (hknown : ∀ j < n, ∀ c, Ancestry.up parent j a = some c → (known c).isSome = true) :
    Ancestry.up known n a = Ancestry.up parent n a := by
  induction n generalizing a with
  | zero => rfl
  | succ n ih =>
      obtain ⟨c, hc⟩ := Option.isSome_iff_exists.mp (hknown 0 (Nat.succ_pos n) a rfl)
      have hparent := h a c hc
      simp only [Ancestry.up, hc, hparent, Option.bind_some]
      refine ih fun j hj d hd => hknown (j + 1) (Nat.succ_lt_succ hj) d ?_
      exact up_succ_eq_some.mpr ⟨c, hparent, hd⟩

/-! ### The closest ancestor with a property -/

/-- `b` is the first proper ancestor of `a` that satisfies `p`, and is `k` levels up. -/
structure ClosestAt (parent : α → Option α) (p : α → Prop) (k : Nat) (a b : α) : Prop where
  pos : 0 < k
  up_eq : up parent k a = some b
  holds : p b
  below : ∀ j, 0 < j → j < k → ∀ c, up parent j a = some c → ¬ p c

theorem ClosestAt.unique {k' : Nat} {b' : α} (h : ClosestAt parent p k a b)
    (h' : ClosestAt parent p k' a b') : k = k' ∧ b = b' := by
  rcases Nat.lt_trichotomy k k' with hlt | rfl | hgt
  · exact absurd h.holds (h'.below k h.pos hlt b h.up_eq)
  · exact ⟨rfl, Option.some.inj (h.up_eq.symm.trans h'.up_eq)⟩
  · exact absurd h'.holds (h.below k' h'.pos hgt b' h'.up_eq)

/-- The closest ancestor is the parent, or that of a parent without the property. -/
theorem closestAt_succ_iff : ClosestAt parent p (k + 1) a b ↔
    ∃ c, parent a = some c ∧ (k = 0 ∧ c = b ∧ p b ∨ ¬ p c ∧ ClosestAt parent p k c b) := by
  constructor
  · rintro ⟨-, hup, hholds, hbelow⟩
    obtain ⟨c, hc, hcb⟩ := up_succ_eq_some.mp hup
    refine ⟨c, hc, ?_⟩
    rcases Nat.eq_zero_or_pos k with rfl | hpos
    · exact Or.inl ⟨rfl, Option.some.inj hcb, hholds⟩
    · right
      refine ⟨hbelow 1 Nat.one_pos (Nat.succ_lt_succ hpos) c
        (up_succ_eq_some.mpr ⟨c, hc, rfl⟩), hpos, hcb, hholds, fun j hj hjk d hd => ?_⟩
      exact hbelow (j + 1) (Nat.succ_pos j) (Nat.succ_lt_succ hjk) d
        (up_succ_eq_some.mpr ⟨c, hc, hd⟩)
  · rintro ⟨c, hc, ⟨rfl, rfl, hholds⟩ | ⟨hnot, hrest⟩⟩
    · refine ⟨Nat.one_pos, up_succ_eq_some.mpr ⟨c, hc, rfl⟩, hholds, fun j hj hj1 => ?_⟩
      exact absurd hj1 (Nat.not_lt.mpr hj)
    · refine ⟨Nat.succ_pos k, up_succ_eq_some.mpr ⟨c, hc, hrest.up_eq⟩, hrest.holds, ?_⟩
      intro j hj hjk d hd
      obtain ⟨j, rfl⟩ := Nat.exists_eq_succ_of_ne_zero (Nat.ne_of_gt hj)
      obtain ⟨c', hc', hd⟩ := up_succ_eq_some.mp hd
      obtain rfl : c = c' := Option.some.inj (hc.symm.trans hc')
      rcases Nat.eq_zero_or_pos j with rfl | hpos
      · exact Option.some.inj hd ▸ hnot
      · exact hrest.below j hpos (Nat.lt_of_succ_lt_succ hjk) d hd

/-- What is known gives the closest ancestor exactly when it knows every level below. -/
theorem closestAt_part_iff (h : Part known parent) : ClosestAt known p k a b ↔
    ClosestAt parent p k a b ∧ ∀ j < k, ∀ c, up parent j a = some c → (known c).isSome = true := by
  have hchain : up known k a = some b →
      ∀ j < k, ∀ c, up parent j a = some c → (known c).isSome = true := by
    intro hup j hj c hc
    obtain ⟨c', hc', hrest⟩ := exists_up_of_le hup (Nat.le_of_lt hj)
    obtain rfl : c = c' := Option.some.inj (hc.symm.trans (h.up hc'))
    obtain ⟨n, hn⟩ := Nat.exists_eq_succ_of_ne_zero (Nat.sub_ne_zero_of_lt hj)
    rw [hn] at hrest
    obtain ⟨d, hd, -⟩ := up_succ_eq_some.mp hrest
    rw [hd]
    rfl
  constructor
  · intro hclosest
    have hall := hchain hclosest.up_eq
    refine ⟨⟨hclosest.pos, h.up hclosest.up_eq, hclosest.holds, ?_⟩, hall⟩
    intro j hj hjk c hc
    refine hclosest.below j hj hjk c ?_
    rw [h.up_eq fun i hi => hall i (Nat.lt_trans hi hjk)]
    exact hc
  · rintro ⟨hclosest, hall⟩
    refine ⟨hclosest.pos, (h.up_eq hall).trans hclosest.up_eq, hclosest.holds, ?_⟩
    exact fun j hj hjk c hc => hclosest.below j hj hjk c (h.up hc)

/-! ### The search -/

/-- The first of `depth` levels at which something is found. -/
def climb (parent : α → Option α) (found : α → Option β) : Nat → α → Option β
  | 0, _ => none
  | depth + 1, a =>
      match parent a with
      | none => none
      | some b =>
          match found b with
          | some r => some r
          | none => climb parent found depth b

/-- The search finds what the closest ancestor has to offer. -/
theorem climb_eq_some_iff {found : α → Option β} {depth : Nat} {r : β} :
    climb parent found depth a = some r ↔
      ∃ k b, k ≤ depth ∧ ClosestAt parent (fun b => (found b).isSome = true) k a b ∧
        found b = some r := by
  induction depth generalizing a with
  | zero =>
      refine iff_of_false (by simp [climb]) ?_
      rintro ⟨k, b, hk, hclosest, -⟩
      exact absurd hclosest.pos (Nat.not_lt.mpr hk)
  | succ depth ih =>
      unfold climb
      cases hparent : parent a with
      | none =>
          refine iff_of_false (by simp) ?_
          rintro ⟨k, b, -, hclosest, -⟩
          obtain ⟨k, rfl⟩ := Nat.exists_eq_succ_of_ne_zero (Nat.ne_of_gt hclosest.pos)
          obtain ⟨c, hc, -⟩ := closestAt_succ_iff.mp hclosest
          exact absurd (hparent.symm.trans hc) (by simp)
      | some c =>
          dsimp only
          cases hfound : found c with
          | some r' =>
              have hfirst : ClosestAt parent (fun b => (found b).isSome = true) 1 a c :=
                closestAt_succ_iff.mpr ⟨c, hparent, Or.inl ⟨rfl, rfl, by simp [hfound]⟩⟩
              constructor
              · intro hr
                exact ⟨1, c, Nat.succ_le_succ (Nat.zero_le depth), hfirst, hfound.trans hr⟩
              · rintro ⟨k, b, -, hclosest, hb⟩
                obtain ⟨-, rfl⟩ := hfirst.unique hclosest
                exact hfound.symm.trans hb
          | none =>
              dsimp only
              rw [ih]
              constructor
              · rintro ⟨k, b, hk, hclosest, hb⟩
                exact ⟨k + 1, b, Nat.succ_le_succ hk, closestAt_succ_iff.mpr
                  ⟨c, hparent, Or.inr ⟨by simp [hfound], hclosest⟩⟩, hb⟩
              · rintro ⟨k, b, hk, hclosest, hb⟩
                obtain ⟨k, rfl⟩ := Nat.exists_eq_succ_of_ne_zero (Nat.ne_of_gt hclosest.pos)
                obtain ⟨c', hc', hcase⟩ := closestAt_succ_iff.mp hclosest
                obtain rfl : c = c' := Option.some.inj (hparent.symm.trans hc')
                rcases hcase with ⟨-, rfl, hholds⟩ | ⟨-, hrest⟩
                · exact absurd hholds (by simp [hfound])
                · exact ⟨k, b, Nat.le_of_succ_le_succ hk, hrest, hb⟩

end Ancestry
