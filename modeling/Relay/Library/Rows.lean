import Mathlib.Data.List.DropRight
import Mathlib.Data.List.Sort

/-!
# Relay.Library.Rows

**Tables as lists of rows.** Two kinds of tables.

A table with a primary key is changed by `upsert`, which updates the row of the key or appends
one, by an update of the rows of a key, and by deletions. With distinct keys, `row` is the row of a
key (`row_upsert`, `row_update`, `row_filter`).

A table whose rows are numbered gives a new row one number more than the highest there is. Rows
are deleted anywhere, and numbers of deleted rows may be given again; the numbers still rise in the
order of insertion (`Numbered`), so that the highest `n` of them are the last `n` rows inserted
(`latest_eq_rtake`).
-/

namespace Rows

variable {α κ : Type*}

/-! ### Tables with a primary key -/

section Keyed

variable [DecidableEq κ] (key : α → κ)

/-- The row of a key. -/
def row (k : κ) (l : List α) : Option α := l.find? (fun a => key a = k)

/-- Updates the rows of a key. -/
def update (k : κ) (f : α → α) (l : List α) : List α :=
  l.map (fun a => if key a = k then f a else a)

/-- Updates the row of a key, or appends one. -/
def upsert (k : κ) (f : α → α) (new : α) (l : List α) : List α :=
  if k ∈ l.map key then update key k f l else l ++ [new]

variable {key} {k k' : κ} {f : α → α} {new : α} {l : List α}

theorem row_isSome : (row key k l).isSome = true ↔ k ∈ l.map key := by
  simp [row, List.mem_map]

theorem row_eq_none : row key k l = none ↔ k ∉ l.map key := by
  rw [← row_isSome]
  cases row key k l <;> simp

theorem key_of_row {a : α} (h : row key k l = some a) : key a = k := by
  simpa using List.find?_some h

/-- Among distinct keys, a row is found under its key. -/
theorem row_eq_some_iff {a : α} (h : (l.map key).Nodup) :
    row key k l = some a ↔ a ∈ l ∧ key a = k := by
  refine ⟨fun ha => ⟨List.mem_of_find?_eq_some ha, key_of_row ha⟩, fun ⟨ha, hk⟩ => ?_⟩
  obtain ⟨b, hb⟩ := Option.isSome_iff_exists.mp
    (row_isSome.mpr (List.mem_map.mpr ⟨a, ha, hk⟩))
  have hmem : b ∈ l := List.mem_of_find?_eq_some hb
  rw [hb, List.inj_on_of_nodup_map h hmem ha ((key_of_row hb).trans hk.symm)]

theorem row_append_new (h : k ∉ l.map key) (hnew : key new = k) :
    row key k' (l ++ [new]) = if k' = k then some new else row key k' l := by
  have happend : row key k' (l ++ [new]) = (row key k' l).or (row key k' [new]) :=
    List.find?_append
  rw [happend]
  split
  · rename_i heq
    rw [row_eq_none.mpr (heq ▸ h), Option.none_or, heq]
    exact List.find?_cons_of_pos (decide_eq_true hnew)
  · rename_i heq
    have hno : ¬ key new = k' := fun hk => heq (hk.symm.trans hnew)
    have hnone : row key k' [new] = none := List.find?_cons_of_neg (by simpa using hno)
    rw [hnone, Option.or_none]

theorem row_cons_of_eq {a : α} (h : key a = k) (l : List α) : row key k (a :: l) = some a :=
  List.find?_cons_of_pos (decide_eq_true h)

theorem row_cons_of_ne {a : α} (h : key a ≠ k) (l : List α) :
    row key k (a :: l) = row key k l :=
  List.find?_cons_of_neg (by simpa using h)

/-- An update that leaves the keys alone. -/
theorem row_update (hf : ∀ a, key (f a) = key a) :
    row key k' (update key k f l) = if k' = k then (row key k l).map f else row key k' l := by
  induction l with
  | nil => simp [row, update]
  | cons a l ih =>
      have hcons : update key k f (a :: l) =
          (if key a = k then f a else a) :: update key k f l := rfl
      have hkey : key (if key a = k then f a else a) = key a := by
        split
        · exact hf a
        · rfl
      rw [hcons]
      by_cases ha : key a = k'
      · rw [row_cons_of_eq (hkey.trans ha)]
        by_cases hk : k' = k
        · rw [if_pos (ha.trans hk), if_pos hk, row_cons_of_eq (ha.trans hk), Option.map_some]
        · rw [if_neg fun h => hk (ha.symm.trans h), if_neg hk, row_cons_of_eq ha]
      · rw [row_cons_of_ne (hkey.trans_ne ha), ih, row_cons_of_ne ha]
        by_cases hk : k' = k
        · rw [if_pos hk, if_pos hk, row_cons_of_ne (hk ▸ ha)]
        · rw [if_neg hk, if_neg hk]

theorem map_key_update (hf : ∀ a, key (f a) = key a) :
    (update key k f l).map key = l.map key := by
  unfold update
  rw [List.map_map]
  refine List.map_congr_left fun a _ => ?_
  rw [Function.comp_apply]
  split
  · exact hf a
  · rfl

/-- `INSERT ... ON CONFLICT DO UPDATE`: the row of the key is updated, or is the new one. -/
theorem row_upsert (hf : ∀ a, key (f a) = key a) (hnew : key new = k) :
    row key k' (upsert key k f new l) =
      if k' = k then some (((row key k l).map f).getD new) else row key k' l := by
  unfold upsert
  split
  · rename_i hmem
    rw [row_update hf]
    split
    · obtain ⟨a, ha⟩ := Option.isSome_iff_exists.mp (row_isSome.mpr hmem)
      simp [ha]
    · rfl
  · rename_i hmem
    rw [row_append_new hmem hnew, row_eq_none.mpr hmem]
    rfl

theorem nodup_upsert (hf : ∀ a, key (f a) = key a) (hnew : key new = k)
    (h : (l.map key).Nodup) : ((upsert key k f new l).map key).Nodup := by
  unfold upsert
  split
  · rw [map_key_update hf]
    exact h
  · rename_i hmem
    rw [List.map_append, List.map_singleton, hnew]
    exact List.Nodup.append h (List.nodup_singleton k) (List.disjoint_singleton.mpr hmem)

/-- Among distinct keys, the row of a key survives a deletion when it is not one of those
deleted. -/
theorem row_filter (p : α → Bool) (h : (l.map key).Nodup) :
    row key k (l.filter p) = (row key k l).filter p := by
  induction l with
  | nil => rfl
  | cons a l ih =>
      rw [List.map_cons, List.nodup_cons] at h
      by_cases ha : key a = k
      · rw [row_cons_of_eq ha, Option.filter_some, List.filter_cons]
        split
        · exact row_cons_of_eq ha _
        · -- no other row has the key
          rw [row_eq_none]
          intro hmem
          obtain ⟨b, hb, hkb⟩ := List.mem_map.mp hmem
          exact h.1 (List.mem_map.mpr ⟨b, List.mem_of_mem_filter hb, hkb.trans ha.symm⟩)
      · rw [row_cons_of_ne ha, List.filter_cons]
        split
        · rw [row_cons_of_ne ha, ih h.2]
        · exact ih h.2

end Keyed

/-! ### Tables with numbered rows -/

section Numbered

variable (number : α → Nat)

/-- The number of the next row: one more than the highest. -/
def nextNumber (l : List α) : Nat := (l.map number).foldr max 0 + 1

/-- The numbers rise. -/
def Numbered (l : List α) : Prop := l.Pairwise (fun a b => number a < number b)

/-- `ORDER BY number DESC LIMIT n`, and then from the lowest to the highest. -/
def latest (n : Nat) (l : List α) : List α :=
  ((l.insertionSort (fun a b => number b ≤ number a)).take n).reverse

variable {number} {l : List α} {a : α}

theorem lt_nextNumber (ha : a ∈ l) : number a < nextNumber number l := by
  unfold nextNumber
  induction l with
  | nil => exact absurd ha List.not_mem_nil
  | cons b l ih =>
      rw [List.map_cons, List.foldr_cons]
      rcases List.mem_cons.mp ha with rfl | ha
      · exact Nat.lt_succ_of_le (Nat.le_max_left _ _)
      · exact Nat.lt_of_lt_of_le (ih ha) (Nat.succ_le_succ (Nat.le_max_right _ _))

theorem Numbered.snoc (h : Numbered number l) (ha : number a = nextNumber number l) :
    Numbered number (l ++ [a]) := by
  refine List.pairwise_append.mpr ⟨h, List.pairwise_singleton _ _, fun b hb c hc => ?_⟩
  rw [List.mem_singleton.mp hc, ha]
  exact lt_nextNumber hb

theorem Numbered.filter (h : Numbered number l) (p : α → Bool) : Numbered number (l.filter p) :=
  List.Pairwise.filter p h

/-- The highest numbers are those of the last rows. -/
theorem latest_eq_rtake (h : Numbered number l) (n : Nat) : latest number n l = l.rtake n := by
  have hsort : l.insertionSort (fun a b => number b ≤ number a) = l.reverse := by
    induction l with
    | nil => rfl
    | cons a l ih =>
        obtain ⟨hlt, hl⟩ := List.pairwise_cons.mp h
        rw [List.insertionSort_cons, ih hl, List.reverse_cons]
        -- the first row has the lowest number, and sinks to the end
        have hsink : ∀ m : List α, (∀ b ∈ m, number a < number b) →
            m.orderedInsert (fun a b => number b ≤ number a) a = m ++ [a] := by
          intro m hm
          induction m with
          | nil => rfl
          | cons b m ih' =>
              have hb : ¬ number b ≤ number a := Nat.not_le.mpr (hm b List.mem_cons_self)
              have hrest := ih' fun c hc => hm c (List.mem_cons_of_mem _ hc)
              rw [List.orderedInsert_cons, if_neg hb, hrest]
              rfl
        exact hsink l.reverse fun b hb => hlt b (List.mem_reverse.mp hb)
  rw [latest, hsort, List.rtake_eq_reverse_take_reverse]

end Numbered

end Rows
