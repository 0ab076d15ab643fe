import Mathlib.Data.List.Induction
import Mathlib.Data.List.Nodup

/-!
# Relay.Library.OrdDict

**Insertion-ordered dictionaries.** An `OrdDict` is a finite map that remembers
the order in which its keys first arrived: assigning to a key that is present
keeps its place, assigning to a new key puts it last, and removing a key closes
the gap. The uniqueness of keys is a field of the structure, so a dictionary
with a repeated key cannot be built and no later proof re-establishes it.

Lookups are characterised by membership of the pair list (`get?_eq_some_iff`),
which is the form the proofs of this development use; the operations come with
their `get?`, membership and `size` equations.
-/

/-- A finite map that remembers the order in which its keys were inserted. -/
@[ext] structure OrdDict (κ ν : Type*) where
  entries : List (κ × ν)
  nodup : (entries.map Prod.fst).Nodup

namespace OrdDict

variable {κ ν : Type*}

/-- The dictionary without any key. -/
def empty : OrdDict κ ν := ⟨[], List.nodup_nil⟩

/-- The keys, oldest insertion first. -/
def keys (d : OrdDict κ ν) : List κ := d.entries.map Prod.fst

/-- The values, in the order of their keys. -/
def values (d : OrdDict κ ν) : List ν := d.entries.map Prod.snd

/-- The number of keys. -/
def size (d : OrdDict κ ν) : Nat := d.entries.length

instance : Membership κ (OrdDict κ ν) := ⟨fun d k => k ∈ d.keys⟩

theorem mem_def {d : OrdDict κ ν} {k : κ} : k ∈ d ↔ k ∈ d.keys := Iff.rfl

@[simp] theorem not_mem_empty {k : κ} : k ∉ (empty : OrdDict κ ν) := by
  simp [mem_def, keys, empty]

@[simp] theorem entries_empty : (empty : OrdDict κ ν).entries = [] := rfl

@[simp] theorem size_empty : (empty : OrdDict κ ν).size = 0 := rfl

theorem keys_nodup (d : OrdDict κ ν) : d.keys.Nodup := d.nodup

@[simp] theorem length_keys (d : OrdDict κ ν) : d.keys.length = d.size := by
  simp [keys, size]

theorem size_ne_zero_of_mem {d : OrdDict κ ν} {k : κ} (h : k ∈ d) : d.size ≠ 0 := by
  rw [← length_keys]
  exact Nat.ne_of_gt (List.length_pos_of_mem h)

variable [DecidableEq κ]

instance (d : OrdDict κ ν) (k : κ) : Decidable (k ∈ d) :=
  inferInstanceAs (Decidable (k ∈ d.keys))

/-- The value stored under `k`. -/
def get? (d : OrdDict κ ν) (k : κ) : Option ν :=
  (d.entries.find? (fun p => p.1 = k)).map Prod.snd

/-- Assignment `d[k] = v`: in place when `k` is present, at the end otherwise. -/
def insert (d : OrdDict κ ν) (k : κ) (v : ν) : OrdDict κ ν :=
  if h : k ∈ d.keys then
    ⟨d.entries.map (fun p => if p.1 = k then (k, v) else p), by
      have hfst : (fun p : κ × ν => (if p.1 = k then (k, v) else p).1) = Prod.fst := by
        funext p
        split <;> simp_all
      simpa [List.map_map, Function.comp_def, hfst] using d.nodup⟩
  else
    ⟨d.entries ++ [(k, v)], by
      rw [List.map_append, List.map_singleton]
      exact List.Nodup.append d.nodup (List.nodup_singleton k)
        (List.disjoint_singleton.mpr h)⟩

/-- `d.setdefault(k, v)`: a key that is present keeps its value. -/
def setDefault (d : OrdDict κ ν) (k : κ) (v : ν) : OrdDict κ ν :=
  if k ∈ d then d else d.insert k v

/-- Removal of a key (`d.pop(k, None)`); the others keep their order. -/
def erase (d : OrdDict κ ν) (k : κ) : OrdDict κ ν :=
  ⟨d.entries.filter (fun p => p.1 ≠ k), d.nodup.sublist (List.filter_sublist.map _)⟩

/-! ### Lookup -/

theorem get?_eq_some_iff {d : OrdDict κ ν} {k : κ} {v : ν} :
    d.get? k = some v ↔ (k, v) ∈ d.entries := by
  obtain ⟨l, hl⟩ := d
  simp only [get?]
  induction l with
  | nil => simp
  | cons p rest ih =>
      simp only [List.map_cons, List.nodup_cons] at hl
      obtain ⟨k', v'⟩ := p
      by_cases hk : k' = k
      · subst hk
        have hnot : (k', v) ∉ rest := fun hmem =>
          hl.1 (List.mem_map.mpr ⟨(k', v), hmem, rfl⟩)
        simp [hnot, eq_comm]
      · rw [List.find?_cons_of_neg (by simpa using hk), ih hl.2]
        simp [Ne.symm hk]

theorem mem_iff_get? {d : OrdDict κ ν} {k : κ} : k ∈ d ↔ ∃ v, d.get? k = some v := by
  simp only [get?_eq_some_iff, mem_def, keys, List.mem_map, Prod.exists, exists_and_right,
    exists_eq_right]

theorem mem_of_get? {d : OrdDict κ ν} {k : κ} {v : ν} (h : d.get? k = some v) : k ∈ d :=
  mem_iff_get?.mpr ⟨v, h⟩

theorem get?_eq_none_iff {d : OrdDict κ ν} {k : κ} : d.get? k = none ↔ k ∉ d := by
  rw [mem_iff_get?, Option.eq_none_iff_forall_ne_some, not_exists]

theorem mem_values_iff {d : OrdDict κ ν} {v : ν} :
    v ∈ d.values ↔ ∃ k, d.get? k = some v := by
  simp only [get?_eq_some_iff, values, List.mem_map, Prod.exists, exists_eq_right]

/-- Where its key stands, a value stands. -/
theorem getElem?_values_idxOf {d : OrdDict κ ν} {k : κ} {v : ν} (h : d.get? k = some v) :
    d.values[d.keys.idxOf k]? = some v := by
  obtain ⟨i, hi, hentry⟩ := List.getElem_of_mem (get?_eq_some_iff.mp h)
  have hkeys : i < d.keys.length := by simpa [keys] using hi
  have hkey : d.keys[i] = k := by simp [keys, hentry]
  have hidx : d.keys.idxOf k = i := by
    rw [← hkey]
    exact d.keys_nodup.idxOf_getElem i hkeys
  rw [hidx, values, List.getElem?_map, List.getElem?_eq_getElem hi, hentry]
  rfl

@[simp] theorem get?_empty {k : κ} : (empty : OrdDict κ ν).get? k = none := rfl

/-! ### Insertion -/

theorem get?_insert (d : OrdDict κ ν) (k k' : κ) (v : ν) :
    (d.insert k v).get? k' = if k' = k then some v else d.get? k' := by
  unfold insert
  split
  · rename_i hk
    split
    · rename_i hkk
      subst hkk
      rw [get?_eq_some_iff]
      obtain ⟨w, hw⟩ := mem_iff_get?.mp (mem_def.mpr hk)
      exact List.mem_map.mpr ⟨(k', w), get?_eq_some_iff.mp hw, by simp⟩
    · rename_i hkk
      apply Option.ext
      intro w
      rw [get?_eq_some_iff, get?_eq_some_iff]
      simp only [List.mem_map, Prod.exists]
      constructor
      · rintro ⟨a, b, hab, heq⟩
        split at heq
        · exact absurd (congrArg Prod.fst heq).symm hkk
        · exact heq ▸ hab
      · intro h
        exact ⟨k', w, h, by simp [hkk]⟩
  · rename_i hk
    split
    · rename_i hkk
      subst hkk
      rw [get?_eq_some_iff]
      simp
    · rename_i hkk
      apply Option.ext
      intro w
      rw [get?_eq_some_iff, get?_eq_some_iff]
      simp [hkk]

@[simp] theorem get?_insert_self (d : OrdDict κ ν) (k : κ) (v : ν) :
    (d.insert k v).get? k = some v := by
  rw [get?_insert, if_pos rfl]

theorem get?_insert_of_ne (d : OrdDict κ ν) {k k' : κ} (v : ν) (h : k' ≠ k) :
    (d.insert k v).get? k' = d.get? k' := by
  rw [get?_insert, if_neg h]

@[simp] theorem mem_insert {d : OrdDict κ ν} {k k' : κ} {v : ν} :
    k' ∈ d.insert k v ↔ k' = k ∨ k' ∈ d := by
  rw [mem_iff_get?, mem_iff_get?]
  by_cases h : k' = k
  · subst h
    simp
  · simp [get?_insert_of_ne d v h, h]

theorem keys_insert_of_not_mem {d : OrdDict κ ν} {k : κ} {v : ν} (h : k ∉ d) :
    (d.insert k v).keys = d.keys ++ [k] := by
  unfold insert keys
  rw [dif_neg (by simpa [mem_def, keys] using h)]
  simp

theorem entries_insert_of_not_mem {d : OrdDict κ ν} {k : κ} {v : ν} (h : k ∉ d) :
    (d.insert k v).entries = d.entries ++ [(k, v)] := by
  unfold insert
  rw [dif_neg (by simpa [mem_def] using h)]

/-- A new value that looks like the old one under `f` changes nothing under `f`. -/
theorem map_entries_insert {β : Type*} {f : κ × ν → β} {d : OrdDict κ ν} {k : κ} {v w : ν}
    (hk : d.get? k = some w) (hf : f (k, v) = f (k, w)) :
    (d.insert k v).entries.map f = d.entries.map f := by
  unfold insert
  rw [dif_pos (mem_def.mp (mem_of_get? hk)), List.map_map]
  refine List.map_congr_left fun p hp => ?_
  by_cases hkey : p.1 = k
  · have hvalue : d.get? p.1 = some p.2 := get?_eq_some_iff.mpr hp
    rw [hkey, hk] at hvalue
    have hold : (k, w) = p := Prod.ext hkey.symm (Option.some.inj hvalue)
    rw [Function.comp_apply, if_pos hkey, hf, hold]
  · simp [hkey]

/-- A dictionary filled with the items of a list, which have different keys. -/
theorem entries_foldl_insert {α : Type*} {key : α → κ} {value : α → ν} {l : List α}
    (h : (l.map key).Nodup) :
    (l.foldl (fun d a => d.insert (key a) (value a)) empty).entries =
      l.map (fun a => (key a, value a)) := by
  induction l using List.reverseRecOn with
  | nil => rfl
  | append_singleton l a ih =>
      rw [List.map_append, List.nodup_append] at h
      have hentries := ih h.1
      rw [List.foldl_append, List.foldl_cons, List.foldl_nil, entries_insert_of_not_mem, hentries]
      · simp
      · rw [mem_def, keys, hentries, List.map_map]
        intro hmem
        exact h.2.2 _ hmem _ (by simp) rfl

theorem size_insert_of_not_mem {d : OrdDict κ ν} {k : κ} {v : ν} (h : k ∉ d) :
    (d.insert k v).size = d.size + 1 := by
  rw [← length_keys, ← length_keys, keys_insert_of_not_mem h]
  simp

theorem get?_setDefault (d : OrdDict κ ν) (k k' : κ) (v : ν) :
    (d.setDefault k v).get? k' = (d.get? k').or (if k' = k then some v else none) := by
  unfold setDefault
  by_cases hk : k' = k
  · subst hk
    split
    · rename_i hmem
      obtain ⟨w, hw⟩ := mem_iff_get?.mp hmem
      simp [hw]
    · rename_i hmem
      simp [get?_eq_none_iff.mpr hmem]
  · split <;> simp [get?_insert_of_ne, hk]

/-! ### Removal -/

theorem get?_erase (d : OrdDict κ ν) (k k' : κ) :
    (d.erase k).get? k' = if k' = k then none else d.get? k' := by
  split
  · rename_i h
    subst h
    rw [get?_eq_none_iff, mem_def]
    simp [keys, erase]
  · rename_i h
    apply Option.ext
    intro w
    rw [get?_eq_some_iff, get?_eq_some_iff]
    simp [erase, h]

@[simp] theorem get?_erase_self (d : OrdDict κ ν) (k : κ) : (d.erase k).get? k = none := by
  rw [get?_erase, if_pos rfl]

theorem get?_erase_of_ne (d : OrdDict κ ν) {k k' : κ} (h : k' ≠ k) :
    (d.erase k).get? k' = d.get? k' := by
  rw [get?_erase, if_neg h]

@[simp] theorem mem_erase {d : OrdDict κ ν} {k k' : κ} :
    k' ∈ d.erase k ↔ k' ≠ k ∧ k' ∈ d := by
  rw [mem_iff_get?, mem_iff_get?]
  by_cases h : k' = k
  · subst h
    simp
  · simp [get?_erase_of_ne d h, h]

theorem keys_erase (d : OrdDict κ ν) (k : κ) :
    (d.erase k).keys = d.keys.filter (fun k' => k' ≠ k) := by
  simp [keys, erase, List.filter_map, Function.comp_def]

theorem size_erase_le (d : OrdDict κ ν) (k : κ) : (d.erase k).size ≤ d.size :=
  List.length_filter_le _ _

/-- The removal of a list of keys. -/
theorem get?_foldl_erase (d : OrdDict κ ν) (ks : List κ) (k : κ) :
    (ks.foldl erase d).get? k = if k ∈ ks then none else d.get? k := by
  induction ks generalizing d with
  | nil => rfl
  | cons k' ks ih =>
      rw [List.foldl_cons, ih, get?_erase]
      by_cases hk : k = k'
      · simp [hk]
      · simp [hk]

/-! ### Lists as values

`d.setdefault(k, []).append(a)`: a dictionary that collects values under their keys. -/

variable {α : Type*}

theorem mem_getD_insert_snoc {d : OrdDict κ (List α)} {k k' : κ} {a a' : α} :
    a' ∈ ((d.insert k ((d.get? k).getD [] ++ [a])).get? k').getD [] ↔
      (k' = k ∧ a' = a) ∨ a' ∈ (d.get? k').getD [] := by
  rw [get?_insert]
  split
  · rename_i hk
    subst hk
    simp [or_comm]
  · rename_i hk
    simp [hk]

theorem exists_mem_getD_iff {d : OrdDict κ (List α)} {a : α} :
    (∃ k, a ∈ (d.get? k).getD []) ↔ ∃ p ∈ d.entries, a ∈ p.2 := by
  constructor
  · rintro ⟨k, ha⟩
    cases hk : d.get? k with
    | none => simp [hk] at ha
    | some l => exact ⟨(k, l), get?_eq_some_iff.mp hk, by simpa [hk] using ha⟩
  · rintro ⟨⟨k, l⟩, hp, ha⟩
    exact ⟨k, by rwa [get?_eq_some_iff.mpr hp]⟩

end OrdDict
