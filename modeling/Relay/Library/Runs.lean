import Mathlib.Logic.Basic

/-!
# Relay.Library.Runs

**Labelled runs.** A program taking steps is a function `step : σ → ℓ → Option σ`,
`none` when the label is not possible in the state. `exec` runs a list of labels;
`Run R s ls t` is the relational counterpart for an arbitrary step relation `R`,
so that a run *all of whose steps satisfy a condition* is again a run, of the
relation `Steps step ok`.

`Run.invariant` is the induction rule over runs: a predicate that every step
preserves holds at the end of every run that starts inside it. `states_iff` is its
exact counterpart, for a predicate that a step preserves under a condition on the
step, and only then. `last_iff` is the same for a predicate that stays broken once it is
broken, and speaks of the last state only.
-/

namespace Runs

variable {σ ℓ : Type*}

/-- Executes the labels in order. -/
def exec (step : σ → ℓ → Option σ) : σ → List ℓ → Option σ
  | s, [] => some s
  | s, l :: ls => (step s l).bind (fun t => exec step t ls)

theorem exec_append (step : σ → ℓ → Option σ) (s : σ) (ls ls' : List ℓ) :
    exec step s (ls ++ ls') = (exec step s ls).bind (fun t => exec step t ls') := by
  induction ls generalizing s with
  | nil => rfl
  | cons l ls ih =>
      show (step s l).bind _ = ((step s l).bind _).bind _
      rw [Option.bind_assoc]
      exact congrArg _ (funext fun t => ih t)

theorem exec_snoc_eq_some {step : σ → ℓ → Option σ} {s u : σ} {ls : List ℓ} {l : ℓ} :
    exec step s (ls ++ [l]) = some u ↔ ∃ t, exec step s ls = some t ∧ step t l = some u := by
  rw [exec_append, Option.bind_eq_some_iff]
  simp [exec]

/-- The steps of `step` that satisfy `ok` in the state they start from. -/
def Steps (step : σ → ℓ → Option σ) (ok : σ → ℓ → Prop) (s : σ) (l : ℓ) (t : σ) : Prop :=
  step s l = some t ∧ ok s l

/-- All steps of `step`. -/
def Any (_ : σ) (_ : ℓ) : Prop := True

/-- `Run R s ls t`: the labels `ls` lead from `s` to `t` through steps of `R`. -/
inductive Run (R : σ → ℓ → σ → Prop) : σ → List ℓ → σ → Prop
  | nil (s : σ) : Run R s [] s
  | snoc {s t u : σ} {ls : List ℓ} {l : ℓ} : Run R s ls t → R t l u → Run R s (ls ++ [l]) u

variable {R R' : σ → ℓ → σ → Prop}

/-- **Invariant rule.** What every step preserves holds at the end of a run. -/
theorem Run.invariant {I : σ → Prop} (hstep : ∀ s l t, I s → R s l t → I t) {s t : σ}
    {ls : List ℓ} (h : Run R s ls t) (hs : I s) : I t := by
  induction h with
  | nil => exact hs
  | snoc _ hlast ih => exact hstep _ _ _ ih hlast

theorem Run.mono (hR : ∀ s l t, R s l t → R' s l t) {s t : σ} {ls : List ℓ}
    (h : Run R s ls t) : Run R' s ls t := by
  induction h with
  | nil => exact .nil _
  | snoc _ hlast ih => exact .snoc ih (hR _ _ _ hlast)

theorem Run.append {s t u : σ} {ls ls' : List ℓ} (h : Run R s ls t) (h' : Run R t ls' u) :
    Run R s (ls ++ ls') u := by
  induction h' with
  | nil => simpa using h
  | snoc _ hlast ih => rw [← List.append_assoc]; exact .snoc ih hlast

/-- The last step of a run. -/
theorem Run.snoc_inv {s u : σ} {ls : List ℓ} {l : ℓ} (h : Run R s (ls ++ [l]) u) :
    ∃ t, Run R s ls t ∧ R t l u := by
  generalize hlabels : ls ++ [l] = labels at h
  cases h with
  | nil => exact absurd hlabels (by simp)
  | snoc hrest hlast =>
      obtain ⟨rfl, hl⟩ := List.append_inj' hlabels rfl
      obtain rfl := List.head_eq_of_cons_eq hl
      exact ⟨_, hrest, hlast⟩

theorem Run.single {s t : σ} {l : ℓ} (h : R s l t) : Run R s [l] t := .snoc (.nil s) h

theorem Run.head {s t u : σ} {l : ℓ} {ls : List ℓ} (h : R s l t) (h' : Run R t ls u) :
    Run R s (l :: ls) u :=
  Run.append (.single h) h'

/-- An execution is a run; a condition on its labels alone holds of all its steps. -/
theorem run_of_exec {step : σ → ℓ → Option σ} (ok : ℓ → Prop) {s t : σ} {ls : List ℓ}
    (h : exec step s ls = some t) (hok : ∀ l ∈ ls, ok l) :
    Run (Steps step (fun _ l => ok l)) s ls t := by
  induction ls generalizing s with
  | nil =>
      obtain rfl : s = t := by simpa [exec] using h
      exact .nil _
  | cons l ls ih =>
      obtain ⟨u, hu, hrest⟩ := Option.bind_eq_some_iff.mp h
      exact .head ⟨hu, hok l List.mem_cons_self⟩
        (ih hrest fun l' hl' => hok l' (List.mem_cons_of_mem _ hl'))

theorem run_any_of_exec {step : σ → ℓ → Option σ} {s t : σ} {ls : List ℓ}
    (h : exec step s ls = some t) : Run (Steps step Any) s ls t :=
  run_of_exec (fun _ => True) h fun _ _ => trivial

/-- The steps of `step` in which a condition is tested first. -/
def guarded (step : σ → ℓ → Option σ) (ok : σ → ℓ → Prop) [∀ s l, Decidable (ok s l)] (s : σ)
    (l : ℓ) : Option σ :=
  if ok s l then step s l else none

/-- An execution that tests a condition before each step is a run of steps that satisfy
it. -/
theorem run_of_exec_guarded {step : σ → ℓ → Option σ} {ok : σ → ℓ → Prop}
    [∀ s l, Decidable (ok s l)] {s t : σ} {ls : List ℓ} (h : exec (guarded step ok) s ls = some t) :
    Run (Steps step ok) s ls t :=
  (run_any_of_exec h).mono fun _ _ _ hst => by
    obtain ⟨hok, hstep⟩ := Option.ite_none_right_eq_some.mp hst.1
    exact ⟨hstep, hok⟩

theorem exec_of_run {step : σ → ℓ → Option σ} {ok : σ → ℓ → Prop} {s t : σ} {ls : List ℓ}
    (h : Run (Steps step ok) s ls t) : exec step s ls = some t := by
  induction h with
  | nil => rfl
  | snoc _ hlast ih => exact exec_snoc_eq_some.mpr ⟨_, ih, hlast.1⟩

/-- **Exact condition rule.** Let `I` survive a step exactly when the step satisfies `ok`,
where `J` is an invariant. Then `I` holds in every state a run goes through exactly when all
steps of the run satisfy `ok`. -/
theorem states_iff {step : σ → ℓ → Option σ} {ok : σ → ℓ → Prop} {I J : σ → Prop}
    (hJ : ∀ s l t, J s → step s l = some t → J t)
    (hstep : ∀ s l t, J s → I s → step s l = some t → (I t ↔ ok s l)) {s t : σ} {ls : List ℓ}
    (h : Run (Steps step Any) s ls t) (hj : J s) (hI : I s) :
    (∀ ls₁ t₁, ls₁ <+: ls → exec step s ls₁ = some t₁ → I t₁) ↔ Run (Steps step ok) s ls t := by
  induction h with
  | nil =>
      refine iff_of_true (fun ls₁ t₁ hls ht₁ => ?_) (.nil _)
      obtain rfl := List.prefix_nil.mp hls
      obtain rfl := Option.some.inj ht₁
      exact hI
  | @snoc t u ls l hrun hlast ih =>
      have hjt : J t := hrun.invariant (fun s l t hj hst => hJ s l t hj hst.1) hj
      have hu : exec step s (ls ++ [l]) = some u :=
        exec_snoc_eq_some.mpr ⟨t, exec_of_run hrun, hlast.1⟩
      constructor
      · intro hall
        have hrest := ih.mp fun ls₁ t₁ hls =>
          hall ls₁ t₁ (hls.trans (List.prefix_append _ _))
        have hIt := hall ls t (List.prefix_append _ _) (exec_of_run hrun)
        exact .snoc hrest
          ⟨hlast.1, (hstep t l u hjt hIt hlast.1).mp (hall _ u (List.prefix_refl _) hu)⟩
      · intro hok ls₁ t₁ hls ht₁
        obtain ⟨t', hrest, hlast'⟩ := Run.snoc_inv hok
        obtain rfl : t = t' := Option.some.inj ((exec_of_run hrun).symm.trans (exec_of_run hrest))
        have hstates := ih.mpr hrest
        rcases List.prefix_concat_iff.mp hls with rfl | hls
        · obtain rfl : u = t₁ := Option.some.inj (hu.symm.trans ht₁)
          have hIt := hstates ls t (List.prefix_refl _) (exec_of_run hrun)
          exact (hstep t l u hjt hIt hlast.1).mpr hlast'.2
        · exact hstates ls₁ t₁ hls ht₁

/-- **Exact condition rule for the last state.** Let `I`, once broken, stay broken, and survive
a step exactly when the step satisfies `ok`, where `J` is an invariant. Then `I` holds at the end
of a run exactly when all steps of the run satisfy `ok`. -/
theorem last_iff {step : σ → ℓ → Option σ} {ok : σ → ℓ → Prop} {I J : σ → Prop}
    (hJ : ∀ s l t, J s → step s l = some t → J t)
    (hbroken : ∀ s l t, J s → ¬ I s → step s l = some t → ¬ I t)
    (hstep : ∀ s l t, J s → I s → step s l = some t → (I t ↔ ok s l)) {s t : σ} {ls : List ℓ}
    (h : Run (Steps step Any) s ls t) (hj : J s) (hI : I s) :
    I t ↔ Run (Steps step ok) s ls t := by
  induction h with
  | nil => exact iff_of_true hI (.nil _)
  | @snoc t u ls l hrun hlast ih =>
      have hjt : J t := hrun.invariant (fun s l t hj hst => hJ s l t hj hst.1) hj
      constructor
      · intro hIu
        have hIt : I t := not_not.mp fun hIt => hbroken t l u hjt hIt hlast.1 hIu
        exact .snoc (ih.mp hIt) ⟨hlast.1, (hstep t l u hjt hIt hlast.1).mp hIu⟩
      · intro hok
        obtain ⟨t', hrest, hlast'⟩ := Run.snoc_inv hok
        obtain rfl : t = t' := Option.some.inj ((exec_of_run hrun).symm.trans (exec_of_run hrest))
        exact (hstep t l u hjt (ih.mpr hrest) hlast.1).mpr hlast'.2

/-! ### Several components -/

/-- A step of one of several components, each of which takes its own steps. -/
def stepAt (step : σ → ℓ → Option σ) (cs : List σ) (l : Nat × ℓ) : Option (List σ) :=
  (cs[l.1]?).bind (fun c => (step c l.2).map (cs.set l.1))

theorem stepAt_eq_some {step : σ → ℓ → Option σ} {cs cs' : List σ} {l : Nat × ℓ}
    (h : stepAt step cs l = some cs') :
    ∃ c c', cs[l.1]? = some c ∧ step c l.2 = some c' ∧ cs' = cs.set l.1 c' := by
  obtain ⟨c, hc, hmap⟩ := Option.bind_eq_some_iff.mp h
  obtain ⟨c', hc', rfl⟩ := Option.map_eq_some_iff.mp hmap
  exact ⟨c, c', hc, hc', rfl⟩

/-- What a component keeps, every component of a list keeps. -/
theorem stepAt_preserves {step : σ → ℓ → Option σ} {ok : σ → ℓ → Prop} {I : σ → Prop}
    (hstep : ∀ c l c', I c → step c l = some c' → ok c l → I c') {cs cs' : List σ} {l : Nat × ℓ}
    (h : stepAt step cs l = some cs') (hok : ∀ c, cs[l.1]? = some c → ok c l.2)
    (hI : ∀ c ∈ cs, I c) : ∀ c ∈ cs', I c := by
  obtain ⟨c, c', hc, hc', rfl⟩ := stepAt_eq_some h
  intro d hd
  rcases List.mem_or_eq_of_mem_set hd with hold | rfl
  · exact hI d hold
  · exact hstep c l.2 d (hI c (List.mem_of_getElem? hc)) hc' (hok c hc)

/-- The labels of one component. -/
def labelsAt (n : Nat) (ls : List (Nat × ℓ)) : List ℓ :=
  ls.filterMap fun l => if l.1 = n then some l.2 else none

theorem length_exec_stepAt {step : σ → ℓ → Option σ} {cs cs' : List σ} {ls : List (Nat × ℓ)}
    (h : exec (stepAt step) cs ls = some cs') : cs'.length = cs.length := by
  induction ls generalizing cs with
  | nil => rw [Option.some.inj h]
  | cons l ls ih =>
      obtain ⟨cs₁, hl, hrest⟩ := Option.bind_eq_some_iff.mp h
      obtain ⟨d, d', hd, hstep, rfl⟩ := stepAt_eq_some hl
      rw [ih hrest, List.length_set]

/-- **Projection.** A component that steps with others makes a run of its own. -/
theorem exec_stepAt_component {step : σ → ℓ → Option σ} {cs cs' : List σ} {ls : List (Nat × ℓ)}
    (h : exec (stepAt step) cs ls = some cs') {n : Nat} {c : σ} (hc : cs[n]? = some c) :
    ∃ c', cs'[n]? = some c' ∧ exec step c (labelsAt n ls) = some c' := by
  induction ls generalizing cs c with
  | nil =>
      obtain rfl : cs = cs' := Option.some.inj h
      exact ⟨c, hc, rfl⟩
  | cons l ls ih =>
      obtain ⟨cs₁, hl, hrest⟩ := Option.bind_eq_some_iff.mp h
      obtain ⟨d, d', hd, hstep, rfl⟩ := stepAt_eq_some hl
      by_cases hn : l.1 = n
      · obtain rfl : d = c := Option.some.inj (hd.symm.trans (hn ▸ hc))
        have hat : (cs.set l.1 d')[n]? = some d' := by
          rw [← hn, List.getElem?_set_self (List.getElem?_eq_some_iff.mp hd).1]
        obtain ⟨c', hc', hexec⟩ := ih hrest hat
        refine ⟨c', hc', ?_⟩
        simp only [labelsAt, List.filterMap_cons, if_pos hn]
        exact Option.bind_eq_some_iff.mpr ⟨d', hstep, hexec⟩
      · have hat : (cs.set l.1 d')[n]? = some c := by rw [List.getElem?_set_ne hn, hc]
        obtain ⟨c', hc', hexec⟩ := ih hrest hat
        refine ⟨c', hc', ?_⟩
        simp only [labelsAt, List.filterMap_cons, if_neg hn]
        exact hexec

end Runs
