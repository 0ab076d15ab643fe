import Mathlib.Data.List.Basic
import Mathlib.Data.List.Infix

/-!
# Relay.Library.Scan

**Scanning a text from left to right.** A recogniser reads something at the front of a text and
says what is left of it. `pieces` applies it at the first position at which it succeeds, goes on
behind what it read, and keeps all other symbols as they are; this is what the substitution of a
regular expression does. `pieces_induction` follows the scan; `pieces_eq_map_inl_iff` says when it
finds nothing, and `length_pieces_lt` that it shortens the text otherwise.

`Pair a b l` says that `a` stands right before `b` somewhere in `l`. What the parts of a text do
not pair, the text pairs at their junctions only (`pair_append`, `pair_flatten`).
-/

namespace Scan

variable {α β : Type*}

/-- The text of a string. -/
abbrev Text := List Char

/-- What a recogniser reads at the front of a text, and the rest. -/
abbrev Recogniser (α β : Type*) := List α → Option (β × List α)

/-- A recogniser does not succeed without reading something. -/
def Consumes (r : Recogniser α β) : Prop :=
  ∀ cs b rest, r cs = some (b, rest) → rest.length < cs.length

def piecesLoop (r : Recogniser α β) : Nat → List α → List (α ⊕ β)
  | 0, _ => []
  | _ + 1, [] => []
  | n + 1, c :: cs =>
      match r (c :: cs) with
      | some (b, rest) => .inr b :: piecesLoop r n rest
      | none => .inl c :: piecesLoop r n cs

/-- The text with what the recogniser finds in it. -/
def pieces (r : Recogniser α β) (cs : List α) : List (α ⊕ β) := piecesLoop r cs.length cs

variable {r : Recogniser α β} {c : α} {cs rest : List α} {b : β}

/-- More fuel than the text is long changes nothing. -/
theorem piecesLoop_eq (h : Consumes r) :
    ∀ (n : Nat) (cs : List α), cs.length ≤ n → piecesLoop r n cs = pieces r cs := by
  intro n
  induction n using Nat.strong_induction_on with
  | _ n ih =>
      intro cs hle
      cases cs with
      | nil => cases n <;> rfl
      | cons c cs =>
          obtain ⟨n, rfl⟩ : ∃ m, n = m + 1 := ⟨n - 1, by simp at hle; omega⟩
          have hcs : cs.length ≤ n := Nat.le_of_succ_le_succ hle
          show piecesLoop r (n + 1) (c :: cs) = piecesLoop r (cs.length + 1) (c :: cs)
          simp only [piecesLoop]
          cases hr : r (c :: cs) with
          | none => exact congrArg _ (ih n (Nat.lt_succ_self n) cs hcs)
          | some p =>
              -- what is left of a match is shorter, so either amount of fuel does for it
              have hlt : p.2.length ≤ cs.length := Nat.le_of_lt_succ (h _ _ _ hr)
              have hfuel := ih n (Nat.lt_succ_self n) p.2 (hlt.trans hcs)
              rcases Nat.lt_or_ge cs.length (n + 1) with hlt' | hge
              · exact congrArg _ (hfuel.trans (ih cs.length hlt' p.2 hlt).symm)
              · exact absurd hcs (by omega)

theorem pieces_nil : pieces r [] = [] := rfl

theorem pieces_of_some (h : Consumes r) (hr : r cs = some (b, rest)) (hcs : cs ≠ []) :
    pieces r cs = .inr b :: pieces r rest := by
  obtain ⟨c, cs, rfl⟩ := List.exists_cons_of_ne_nil hcs
  have hlt : rest.length ≤ cs.length := Nat.le_of_lt_succ (h _ _ _ hr)
  simp only [pieces, List.length_cons, piecesLoop, hr]
  exact congrArg _ (piecesLoop_eq h _ _ hlt)

theorem pieces_of_none (hr : r (c :: cs) = none) :
    pieces r (c :: cs) = .inl c :: pieces r cs := by
  simp only [pieces, List.length_cons, piecesLoop, hr]

/-- What holds of the empty text, and of a text when it holds of what the scan goes on with,
holds of every text. -/
theorem pieces_induction {P : List α → Prop} (h : Consumes r) (nil : P [])
    (found : ∀ cs b rest, r cs = some (b, rest) → P rest → P cs)
    (other : ∀ c cs, r (c :: cs) = none → P cs → P (c :: cs)) (cs : List α) : P cs := by
  induction hlen : cs.length using Nat.strong_induction_on generalizing cs with
  | _ n ih =>
      subst hlen
      cases cs with
      | nil => exact nil
      | cons c cs =>
          cases hr : r (c :: cs) with
          | none => exact other c cs hr (ih _ (Nat.lt_succ_self _) cs rfl)
          | some p => exact found _ p.1 p.2 hr (ih _ (h _ _ _ hr) p.2 rfl)

/-- Nothing is found in a text exactly when nothing is recognised anywhere in it. -/
theorem pieces_eq_map_inl_iff (h : Consumes r) :
    pieces r cs = cs.map .inl ↔ ∀ t, t <:+ cs → r t = none := by
  have hnil : r [] = none := Option.eq_none_iff_forall_ne_some.mpr fun p hp =>
    absurd (h _ _ _ hp) (Nat.not_lt_zero _)
  induction cs with
  | nil => simp [pieces_nil, hnil]
  | cons c cs ih =>
      cases hr : r (c :: cs) with
      | none =>
          rw [pieces_of_none hr, List.map_cons, List.cons_inj_right]
          refine ih.trans ⟨?_, ?_⟩
          · intro hcs t ht
            rcases List.suffix_cons_iff.mp ht with rfl | ht
            · exact hr
            · exact hcs t ht
          · exact fun hcs t ht => hcs t (ht.trans (List.suffix_cons c cs))
      | some p =>
          rw [pieces_of_some h hr (List.cons_ne_nil _ _)]
          refine iff_of_false (by simp) fun hcs => ?_
          rw [hcs _ (List.suffix_refl _)] at hr
          cases hr

theorem length_pieces_le (h : Consumes r) (cs : List α) : (pieces r cs).length ≤ cs.length := by
  induction cs using pieces_induction h with
  | nil => exact Nat.le_refl _
  | found cs b rest hr ih =>
      have hlt := h _ _ _ hr
      have hne : cs ≠ [] := List.ne_nil_of_length_pos (Nat.zero_lt_of_lt hlt)
      rw [pieces_of_some h hr hne, List.length_cons]
      omega
  | other c cs hr ih =>
      rw [pieces_of_none hr, List.length_cons, List.length_cons]
      omega

/-- A scan that finds something, and reads more than one symbol for it, shortens the text. -/
theorem length_pieces_lt (h : ∀ cs b rest, r cs = some (b, rest) → rest.length + 1 < cs.length)
    (hcs : pieces r cs ≠ cs.map .inl) : (pieces r cs).length < cs.length := by
  have hconsumes : Consumes r := fun cs b rest hr => Nat.lt_of_succ_lt (h cs b rest hr)
  induction cs using pieces_induction hconsumes with
  | nil => exact absurd rfl hcs
  | found cs b rest hr ih =>
      have hlt := h _ _ _ hr
      have hne : cs ≠ [] := List.ne_nil_of_length_pos (Nat.zero_lt_of_lt hlt)
      have hrest := length_pieces_le hconsumes rest
      rw [pieces_of_some hconsumes hr hne, List.length_cons]
      omega
  | other c cs hr ih =>
      rw [pieces_of_none hr, List.map_cons, Ne, List.cons_inj_right] at hcs
      rw [pieces_of_none hr, List.length_cons, List.length_cons]
      exact Nat.succ_lt_succ (ih hcs)

/-- A maximal run. -/
theorem span_of_all {p : α → Bool} {xs ys : List α} (hxs : xs.all p = true)
    (hys : ∀ c ∈ ys.head?, p c = false) :
    (xs ++ ys).takeWhile p = xs ∧ (xs ++ ys).dropWhile p = ys := by
  induction xs with
  | nil =>
      cases ys with
      | nil => exact ⟨rfl, rfl⟩
      | cons c ys => simp [hys c rfl]
  | cons x xs ih =>
      obtain ⟨hx, hxs⟩ : p x = true ∧ xs.all p = true := by simpa using hxs
      simp [hx, ih hxs]

/-! ### Two symbols in a row -/

/-- `a` stands right before `b`. -/
def Pair (a b : α) (l : List α) : Prop := [a, b] <:+: l

variable {a b : α} {l l' : List α} {x : α}

instance [DecidableEq α] (a b : α) (l : List α) : Decidable (Pair a b l) :=
  inferInstanceAs (Decidable (_ <:+: _))

@[simp] theorem not_pair_nil : ¬ Pair a b [] := by
  simp [Pair]

theorem prefix_pair_iff : [a, b] <+: x :: l ↔ x = a ∧ l.head? = some b := by
  cases l with
  | nil => simp
  | cons y l => simp [eq_comm]

theorem pair_cons : Pair a b (x :: l) ↔ (x = a ∧ l.head? = some b) ∨ Pair a b l := by
  rw [Pair, List.infix_cons_iff, prefix_pair_iff, Pair]

theorem pair_append :
    Pair a b (l ++ l') ↔
      Pair a b l ∨ Pair a b l' ∨ (l.getLast? = some a ∧ l'.head? = some b) := by
  induction l with
  | nil => simp
  | cons x l ih =>
      rw [List.cons_append, pair_cons, ih, pair_cons]
      cases l with
      | nil => simp [or_comm]
      | cons y l => simp [or_assoc]

theorem not_pair_of_notMem (h : a ∉ l) : ¬ Pair a b l := fun hpair =>
  h (hpair.subset List.mem_cons_self)

/-- A place where `a` stands before `b` is not within a part that does not pair them. -/
theorem suffix_of_not_pair {t u v : List α} (ht : t <:+ u ++ v) (hpair : [a, b] <+: t)
    (hu : ¬ Pair a b u) (hlast : u.getLast? ≠ some a) : t <:+ v := by
  induction u with
  | nil => exact ht
  | cons x u ih =>
      rw [pair_cons, not_or] at hu
      rcases List.suffix_cons_iff.mp ht with rfl | ht
      · obtain ⟨rfl, hhead⟩ := prefix_pair_iff.mp hpair
        -- the place would be the front of `u ++ v`, within `u` or across its end
        cases u with
        | nil => exact absurd rfl hlast
        | cons y u => exact absurd ⟨rfl, hhead⟩ hu.1
      · cases u with
        | nil => exact ht
        | cons y u => exact ih ht hu.2 hlast

/-- A list of texts pairs `a` and `b` when a text does, or two texts that come next to each
other, but for empty ones, do. -/
theorem pair_flatten {ls : List (List α)} (hne : ∀ l ∈ ls, l ≠ []) :
    ¬ Pair a b ls.flatten ↔
      (∀ l ∈ ls, ¬ Pair a b l) ∧
        ls.IsChain (fun l l' => ¬ (l.getLast? = some a ∧ l'.head? = some b)) := by
  induction ls with
  | nil => simp
  | cons l ls ih =>
      have hne' : ∀ l ∈ ls, l ≠ [] := fun l hl => hne l (List.mem_cons_of_mem _ hl)
      rw [List.flatten_cons, pair_append, not_or, not_or, ih hne']
      cases ls with
      | nil => simp
      | cons l' ls =>
          -- the next text is not empty, so the junction is with its first symbol
          have hhead : (l' :: ls).flatten.head? = l'.head? := by
            obtain ⟨y, l'', rfl⟩ := List.exists_cons_of_ne_nil (hne' l' List.mem_cons_self)
            rfl
          rw [hhead, List.isChain_cons_cons]
          simp only [List.forall_mem_cons]
          tauto

end Scan
