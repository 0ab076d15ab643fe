import Relay.Library.Scan

/-!
# Relay.Config.Interpolation

**Environment references in the configuration** (`_interpolate`). References are replaced where
the regular expression finds them, and then the text that results is searched for `$` and `{` in
a row, to find references that are not supported.

The search does not tell what stood in the text from what has been inserted. Over the grammar of
references, `accepts_iff` says exactly when this makes no difference.
-/

namespace Relay

open Scan

/-! ### References -/

/-- What begins a reference. -/
def opener : Text := ['$', '{']

/-- `[A-Za-z_]`. -/
def isNameStart (c : Char) : Bool := c.isAlpha || c = '_'

/-- `[A-Za-z0-9_]`. -/
def isNameChar (c : Char) : Bool := c.isAlphanum || c = '_'

/-- A reference to a variable. -/
structure Reference where
  name : Text
  default : Option Text
  deriving DecidableEq, Repr

namespace Reference

/-- What stands between the name and the closing brace. -/
def defaultText (ref : Reference) : Text :=
  match ref.default with
  | none => []
  | some default => ':' :: '-' :: default

/-- How a reference is written. -/
def text (ref : Reference) : Text := opener ++ ref.name ++ ref.defaultText ++ ['}']

/-- The name is an identifier, and the default goes up to the closing brace. -/
def WellFormed (ref : Reference) : Prop :=
  (∃ c cs, ref.name = c :: cs ∧ isNameStart c = true ∧ cs.all isNameChar = true) ∧
  ∀ default, ref.default = some default → '}' ∉ default

end Reference

/-- `([^}]*)\}`. -/
def matchUntilBrace : Recogniser Char Text
  | [] => none
  | c :: cs =>
      if c = '}' then some ([], cs)
      else (matchUntilBrace cs).map (fun found => (c :: found.1, found.2))

/-- `(:-([^}]*))?\}`. -/
def matchDefault : Recogniser Char (Option Text)
  | '}' :: rest => some (none, rest)
  | ':' :: '-' :: body => (matchUntilBrace body).map (fun found => (some found.1, found.2))
  | _ => none

/-- A match of `_ENV_VAR_RE` at the front of the text. -/
def matchReference : Recogniser Char Reference
  | '$' :: '{' :: c :: cs =>
      if isNameStart c then
        (matchDefault (cs.dropWhile isNameChar)).map (fun found =>
          (⟨c :: cs.takeWhile isNameChar, found.1⟩, found.2))
      else none
  | _ => none

theorem matchUntilBrace_eq_some_iff {cs found rest : Text} :
    matchUntilBrace cs = some (found, rest) ↔ cs = found ++ '}' :: rest ∧ '}' ∉ found := by
  induction cs generalizing found with
  | nil => simp [matchUntilBrace]
  | cons c cs ih =>
      rw [matchUntilBrace]
      cases found with
      | nil =>
          by_cases hc : c = '}' <;> simp [hc]
      | cons d found =>
          by_cases hc : c = '}'
          · subst hc
            -- a brace ends the default at once, so nothing is found before it
            refine iff_of_false (by simp) ?_
            rintro ⟨heq, hmem⟩
            obtain ⟨rfl, -⟩ := List.cons.inj heq
            exact hmem List.mem_cons_self
          · have hrest : ∀ p : Text × Text,
                (c :: p.1, p.2) = (d :: found, rest) ↔ c = d ∧ p = (found, rest) := by
              simp [Prod.ext_iff, and_assoc]
            simp only [if_neg hc, Option.map_eq_some_iff, hrest, exists_eq_right_right, ih,
              List.cons_append, List.cons.injEq, List.mem_cons, not_or]
            constructor
            · rintro ⟨⟨hcs, hmem⟩, rfl⟩
              exact ⟨⟨rfl, hcs⟩, Ne.symm hc, hmem⟩
            · rintro ⟨⟨rfl, hcs⟩, -, hmem⟩
              exact ⟨⟨hcs, hmem⟩, rfl⟩

theorem matchDefault_eq_some_iff {cs rest : Text} {default : Option Text} :
    matchDefault cs = some (default, rest) ↔
      cs = Reference.defaultText ⟨[], default⟩ ++ '}' :: rest ∧
        ∀ d, default = some d → '}' ∉ d := by
  constructor
  · intro h
    unfold matchDefault at h
    split at h
    · cases h
      exact ⟨rfl, fun d hd => by cases hd⟩
    · rename_i body
      obtain ⟨p, hp, hfound⟩ := Option.map_eq_some_iff.mp h
      cases hfound
      obtain ⟨hbody, hbrace⟩ := matchUntilBrace_eq_some_iff.mp hp
      refine ⟨congrArg (fun body => ':' :: '-' :: body) hbody, fun d hd => ?_⟩
      cases hd
      exact hbrace
    · cases h
  · rintro ⟨rfl, hclosed⟩
    cases default with
    | none => rfl
    | some d =>
        have hfound : matchUntilBrace (d ++ '}' :: rest) = some (d, rest) :=
          matchUntilBrace_eq_some_iff.mpr ⟨rfl, hclosed d rfl⟩
        simp [Reference.defaultText, matchDefault, hfound]

/-- No name goes on with what follows it. -/
theorem defaultText_cons (default : Option Text) (rest : Text) :
    ∃ c cs, isNameChar c = false ∧
      Reference.defaultText ⟨[], default⟩ ++ '}' :: rest = c :: cs := by
  cases default with
  | none => exact ⟨'}', rest, by decide, rfl⟩
  | some d => exact ⟨':', '-' :: d ++ '}' :: rest, by decide, rfl⟩

theorem text_append (c : Char) (cs : Text) (default : Option Text) (rest : Text) :
    Reference.text ⟨c :: cs, default⟩ ++ rest =
      '$' :: '{' :: c :: (cs ++ (Reference.defaultText ⟨[], default⟩ ++ '}' :: rest)) := by
  simp [Reference.text, opener, Reference.defaultText]

/-- The regular expression matches what is written as a reference, and in one way. -/
theorem matchReference_eq_some_iff {cs rest : Text} {ref : Reference} :
    matchReference cs = some (ref, rest) ↔ cs = ref.text ++ rest ∧ ref.WellFormed := by
  obtain ⟨name, default⟩ := ref
  constructor
  · intro h
    unfold matchReference at h
    split at h
    · rename_i c cs
      obtain ⟨hstart, h⟩ := Option.ite_none_right_eq_some.mp h
      obtain ⟨p, hp, hfound⟩ := Option.map_eq_some_iff.mp h
      obtain ⟨found, rest'⟩ := p
      cases hfound
      obtain ⟨hdrop, hclosed⟩ := matchDefault_eq_some_iff.mp hp
      refine ⟨?_, ⟨c, _, rfl, hstart, List.all_takeWhile⟩, hclosed⟩
      have hcs := List.takeWhile_append_dropWhile (p := isNameChar) (l := cs)
      rw [hdrop] at hcs
      rw [text_append, hcs]
    · cases h
  · rintro ⟨rfl, ⟨c, cs, rfl, hstart, hall⟩, hclosed⟩
    -- the greedy match of the name stops where the default or the brace begins
    obtain ⟨x, xs, hx, hxs⟩ := defaultText_cons default rest
    have hhead : ∀ d ∈ (x :: xs).head?, isNameChar d = false := by simpa using hx
    obtain ⟨htake, hdrop⟩ := span_of_all hall hhead
    have hmatch : matchDefault (x :: xs) = some (default, rest) := by
      rw [← hxs]
      exact matchDefault_eq_some_iff.mpr ⟨rfl, hclosed⟩
    rw [text_append, hxs, matchReference, if_pos hstart, htake, hdrop, hmatch]
    rfl

theorem consumes_matchReference : Consumes matchReference := by
  intro cs ref rest h
  obtain ⟨rfl, -⟩ := matchReference_eq_some_iff.mp h
  have hlength : ref.text.length = ref.name.length + ref.defaultText.length + 3 := by
    simp [Reference.text, opener]
    omega
  rw [List.length_append, hlength]
  omega

/-! ### The code -/

/-- `os.environ`. -/
abbrev Environment := Text → Option Text

/-- A `ConfigError` of `_interpolate`: the variable, and the path of the field; or the path and
the text. -/
inductive ConfigError where
  | notSet (name : Text) (keyPath : String)
  | unsupported (keyPath : String) (result : Text)
  deriving DecidableEq, Repr

/-- Its text; `repr` is that of a string. -/
def ConfigError.message (repr : Text → String) : ConfigError → String
  | .notSet name keyPath =>
      "environment variable '" ++ String.ofList name ++ "' referenced at '" ++ keyPath ++
        "' is not set (check .env / secrets.env or the process environment)"
  | .unsupported keyPath result =>
      "unsupported environment reference at '" ++ keyPath ++ "': " ++ repr result ++
        " (supported forms: $\x7bVAR\x7d and $\x7bVAR:-default\x7d)"

/-- What `_sub` puts in the place of a reference; `none` where it raises. -/
def Reference.replacement (env : Environment) (ref : Reference) : Option Text :=
  match ref.default with
  | none => env ref.name
  | some default =>
      if env ref.name = none ∨ env ref.name = some [] then some default else env ref.name

/-- `_sub`. -/
def Reference.sub (env : Environment) (keyPath : String) (ref : Reference) :
    Except ConfigError Text :=
  match ref.replacement env with
  | some value => .ok value
  | none => .error (.notSet ref.name keyPath)

/-- `_ENV_VAR_RE.sub(_sub, node)`, over the matches. -/
def substitute (env : Environment) (keyPath : String) :
    List (Char ⊕ Reference) → Except ConfigError Text
  | [] => .ok []
  | .inl c :: rest => do
      let result ← substitute env keyPath rest
      return c :: result
  | .inr ref :: rest => do
      let value ← ref.sub env keyPath
      let result ← substitute env keyPath rest
      return value ++ result

/-- `_interpolate` of a string. -/
def interpolateStr (env : Environment) (keyPath : String) (node : Text) :
    Except ConfigError Text := do
  let result ← substitute env keyPath (pieces matchReference node)
  if Pair '$' '{' result then throw (.unsupported keyPath result) else return result

/-! ### What the code accepts -/

/-- What stands in the place of a piece of the text. -/
def inserted (env : Environment) : Char ⊕ Reference → Text
  | .inl c => [c]
  | .inr ref => (ref.replacement env).getD []

/-- The text that results. -/
def result (env : Environment) (s : Text) : Text :=
  ((pieces matchReference s).map (inserted env)).flatten

/-- No reference is one to a variable that it needs and that is not set. -/
def AllSet (env : Environment) (s : Text) : Prop :=
  ∀ ref, .inr ref ∈ pieces matchReference s → ref.replacement env ≠ none

variable {env : Environment} {keyPath : String} {s t rest : Text} {ref : Reference} {c : Char}

theorem bind_eq_ok_iff {ε α β : Type} {x : Except ε α} {f : α → Except ε β} {b : β} :
    (x >>= f) = .ok b ↔ ∃ a, x = .ok a ∧ f a = .ok b := by
  cases x <;> simp [bind, Except.bind]

theorem sub_eq_ok_iff : ref.sub env keyPath = .ok t ↔ ref.replacement env = some t := by
  unfold Reference.sub
  cases ref.replacement env <;> simp

theorem substitute_eq_ok_iff {ps : List (Char ⊕ Reference)} :
    substitute env keyPath ps = .ok t ↔
      (∀ ref, .inr ref ∈ ps → ref.replacement env ≠ none) ∧
        t = (ps.map (inserted env)).flatten := by
  induction ps generalizing t with
  | nil => simp [substitute, eq_comm]
  | cons p ps ih =>
      cases p with
      | inl c =>
          simp only [substitute, bind_eq_ok_iff, ih, pure, Except.pure, Except.ok.injEq]
          simp [inserted, eq_comm]
      | inr ref =>
          simp only [substitute, bind_eq_ok_iff, sub_eq_ok_iff, ih, pure, Except.pure,
            Except.ok.injEq]
          constructor
          · rintro ⟨value, hvalue, result, ⟨hset, rfl⟩, rfl⟩
            refine ⟨?_, by simp [inserted, hvalue]⟩
            intro ref' hmem
            rcases List.mem_cons.mp hmem with heq | hmem
            · rw [Sum.inr.inj heq, hvalue]
              exact Option.some_ne_none value
            · exact hset ref' hmem
          · rintro ⟨hset, rfl⟩
            obtain ⟨value, hvalue⟩ := Option.ne_none_iff_exists'.mp (hset ref List.mem_cons_self)
            refine ⟨value, hvalue, _, ⟨fun ref' hmem => ?_, rfl⟩, by simp [inserted, hvalue]⟩
            exact hset ref' (List.mem_cons_of_mem _ hmem)

/-- When a string is accepted, and what results. -/
theorem interpolateStr_eq_ok_iff : interpolateStr env keyPath s = .ok t ↔
    AllSet env s ∧ t = result env s ∧ ¬ Pair '$' '{' (result env s) := by
  simp only [interpolateStr, bind_eq_ok_iff, substitute_eq_ok_iff]
  constructor
  · rintro ⟨_, ⟨hset, rfl⟩, h⟩
    split at h
    · cases h
    · rename_i hpair
      exact ⟨hset, (Except.ok.inj h).symm, hpair⟩
  · rintro ⟨hset, rfl, hpair⟩
    refine ⟨_, ⟨hset, rfl⟩, ?_⟩
    exact if_neg hpair

/-! ### The grammar -/

/-- The reference is one of the supported forms. -/
def Reference.Supported (ref : Reference) : Prop :=
  ref.WellFormed ∧ ∀ default, ref.default = some default → ¬ Pair '$' '{' default

/-- What a reference stands for: the value of the variable, or the default when the variable is
unset or empty. -/
def Reference.Denotes (env : Environment) (ref : Reference) (value : Text) : Prop :=
  match ref.default with
  | none => env ref.name = some value
  | some default =>
      (env ref.name = some value ∧ value ≠ []) ∨
        ((env ref.name = none ∨ env ref.name = some []) ∧ value = default)

theorem replacement_eq_some_iff : ref.replacement env = some t ↔ ref.Denotes env t := by
  unfold Reference.replacement Reference.Denotes
  cases ref.default with
  | none => rfl
  | some default =>
      cases henv : env ref.name with
      | none => simp [eq_comm]
      | some value =>
          by_cases hvalue : value = []
          · simp [hvalue, eq_comm]
          · have hself : value = t → t ≠ [] := fun heq => heq ▸ hvalue
            simpa [hvalue] using hself

/-- Every opener in the text starts a supported reference. -/
def Grammatical (s : Text) : Prop :=
  ∀ t, t <:+ s → opener <+: t →
    ∃ (ref : Reference) (rest : Text), t = ref.text ++ rest ∧ ref.Supported

/-- Every variable that is used without a default is set. -/
def NamesSet (env : Environment) (s : Text) : Prop :=
  ∀ (ref : Reference) (rest : Text), ref.text ++ rest <:+ s → ref.WellFormed →
    ref.default = none → env ref.name ≠ none

/-- The text with each reference replaced, in one pass from left to right. -/
inductive Expands (env : Environment) : Text → Text → Prop
  | nil : Expands env [] []
  | reference {ref : Reference} {rest value t : Text} : ref.Supported → ref.Denotes env value →
      Expands env rest t → Expands env (ref.text ++ rest) (value ++ t)
  | other {c : Char} {cs t : Text} : ¬ opener <+: c :: cs → Expands env cs t →
      Expands env (c :: cs) (c :: t)

/-- A string is accepted exactly when it fits the grammar and its variables are set, and what
results is its expansion. -/
def FollowsGrammar (env : Environment) (keyPath : String) (s : Text) : Prop :=
  ((∃ t, interpolateStr env keyPath s = .ok t) ↔ Grammatical s ∧ NamesSet env s) ∧
    ∀ t, interpolateStr env keyPath s = .ok t → Expands env s t

namespace Reference

theorem opener_prefix_text (ref : Reference) (rest : Text) : opener <+: ref.text ++ rest := by
  simp [text, opener, List.append_assoc]

theorem matchReference_text (h : ref.WellFormed) (rest : Text) :
    matchReference (ref.text ++ rest) = some (ref, rest) :=
  matchReference_eq_some_iff.mpr ⟨rfl, h⟩

/-- A text is written as a reference in one way. -/
theorem text_append_inj {ref' : Reference} {rest' : Text} (h : ref.WellFormed)
    (h' : ref'.WellFormed) (heq : ref.text ++ rest = ref'.text ++ rest') :
    ref = ref' ∧ rest = rest' := by
  have hmatch := matchReference_text h rest
  rw [heq, matchReference_text h'] at hmatch
  exact ⟨(Prod.mk.inj (Option.some.inj hmatch)).1.symm,
    (Prod.mk.inj (Option.some.inj hmatch)).2.symm⟩

/-- Within a supported reference there is one opener, at its start. -/
theorem Supported.suffix_cases (h : ref.Supported) (ht : t <:+ ref.text ++ rest)
    (hopener : opener <+: t) : t = ref.text ++ rest ∨ t <:+ rest := by
  obtain ⟨⟨⟨c, cs, hname, hstart, hall⟩, -⟩, hclean⟩ := h
  have htail : ref.text ++ rest =
      '$' :: (('{' :: (ref.name ++ (ref.defaultText ++ ['}']))) ++ rest) := by
    simp [text, opener]
  rw [htail] at ht ⊢
  rcases List.suffix_cons_iff.mp ht with heq | ht
  · exact Or.inl heq
  · have hbrace : '{' :: (ref.name ++ (ref.defaultText ++ ['}'])) =
        ('{' :: (ref.name ++ ref.defaultText)) ++ ['}'] := by
      simp
    have hend : ('{' :: (ref.name ++ (ref.defaultText ++ ['}']))).getLast? ≠ some '$' := by
      rw [hbrace, List.getLast?_concat]
      decide
    -- a further opener inside would be a pair in the name, in the default, or where they meet
    refine Or.inr (suffix_of_not_pair ht hopener ?_ hend)
    have hdollar : '$' ∉ ref.name := by
      rw [hname, List.mem_cons]
      rintro (rfl | hmem)
      · exact absurd hstart (by decide)
      · exact absurd (List.all_eq_true.mp hall _ hmem) (by decide)
    have hdefault : ¬ Pair '$' '{' ref.defaultText := by
      unfold defaultText
      cases hd : ref.default with
      | none => exact not_pair_nil
      | some d =>
          rw [pair_cons, pair_cons]
          simpa using hclean d hd
    have hlast : ref.name.getLast? ≠ some '$' := fun hlast =>
      hdollar (List.mem_of_getLast? hlast)
    rw [pair_cons, pair_append, pair_append]
    simp [hdefault, hlast, not_pair_of_notMem hdollar, pair_cons]

end Reference

theorem Grammatical.mono (h : Grammatical s) (ht : t <:+ s) : Grammatical t :=
  fun u hu => h u (hu.trans ht)

/-- A text that starts with a reference. -/
theorem grammatical_reference (href : ref.WellFormed) :
    Grammatical (ref.text ++ rest) ↔ ref.Supported ∧ Grammatical rest := by
  constructor
  · intro h
    refine ⟨?_, h.mono (List.suffix_append _ _)⟩
    obtain ⟨ref', rest', heq, hsupported⟩ := h _ (List.suffix_refl _) (ref.opener_prefix_text rest)
    obtain ⟨rfl, -⟩ := Reference.text_append_inj href hsupported.1 heq
    exact hsupported
  · rintro ⟨hsupported, hrest⟩ t ht hopener
    rcases hsupported.suffix_cases ht hopener with rfl | ht
    · exact ⟨ref, rest, rfl, hsupported⟩
    · exact hrest t ht hopener

/-- A text that starts with none. -/
theorem grammatical_other {cs : Text} (hnone : matchReference (c :: cs) = none) :
    Grammatical (c :: cs) ↔ ¬ opener <+: c :: cs ∧ Grammatical cs := by
  constructor
  · intro h
    refine ⟨fun hopener => ?_, h.mono (List.suffix_cons _ _)⟩
    obtain ⟨ref, rest, heq, hsupported⟩ := h _ (List.suffix_refl _) hopener
    rw [heq, Reference.matchReference_text hsupported.1] at hnone
    cases hnone
  · rintro ⟨hopener, hcs⟩ t ht hprefix
    rcases List.suffix_cons_iff.mp ht with rfl | ht
    · exact absurd hprefix hopener
    · exact hcs t ht hprefix

theorem grammatical_nil : Grammatical [] := by
  intro t ht hopener
  rw [List.suffix_nil.mp ht] at hopener
  exact absurd hopener (by simp [opener])

/-! ### The grammar and the scan -/

theorem pieces_reference (href : ref.WellFormed) (rest : Text) :
    pieces matchReference (ref.text ++ rest) = .inr ref :: pieces matchReference rest :=
  pieces_of_some consumes_matchReference (Reference.matchReference_text href rest)
    (by simp [Reference.text, opener])

/-- The scan of a text, with what the regular expression matches spelled out. -/
theorem scan_induction {P : Text → Prop} (nil : P [])
    (reference : ∀ (ref : Reference) (rest : Text), ref.WellFormed → P rest →
      P (ref.text ++ rest))
    (other : ∀ c cs, matchReference (c :: cs) = none → P cs → P (c :: cs)) (s : Text) : P s := by
  refine pieces_induction consumes_matchReference nil ?_ other s
  intro cs ref rest h hrest
  obtain ⟨rfl, href⟩ := matchReference_eq_some_iff.mp h
  exact reference ref rest href hrest

theorem allSet_reference (href : ref.WellFormed) :
    AllSet env (ref.text ++ rest) ↔ ref.replacement env ≠ none ∧ AllSet env rest := by
  simp [AllSet, pieces_reference href]

theorem allSet_other {cs : Text} (hnone : matchReference (c :: cs) = none) :
    AllSet env (c :: cs) ↔ AllSet env cs := by
  simp [AllSet, pieces_of_none hnone]

theorem result_reference (href : ref.WellFormed) :
    result env (ref.text ++ rest) = (ref.replacement env).getD [] ++ result env rest := by
  simp [result, pieces_reference href, inserted]

theorem result_other {cs : Text} (hnone : matchReference (c :: cs) = none) :
    result env (c :: cs) = c :: result env cs := by
  simp [result, pieces_of_none hnone, inserted]

/-- The scan of a text that fits the grammar finds its supported references. -/
theorem Grammatical.supported (h : Grammatical s) :
    ∀ ref, .inr ref ∈ pieces matchReference s → ref.Supported := by
  induction s using scan_induction with
  | nil => simp [pieces_nil]
  | reference ref rest href ih =>
      obtain ⟨hsupported, hrest⟩ := (grammatical_reference href).mp h
      rw [pieces_reference href]
      simpa [hsupported] using ih hrest
  | other c cs hnone ih =>
      rw [pieces_of_none hnone]
      simpa using ih ((grammatical_other hnone).mp h).2

theorem replacement_ne_none_iff :
    ref.replacement env ≠ none ↔ (ref.default = none → env ref.name ≠ none) := by
  unfold Reference.replacement
  cases ref.default with
  | none => simp
  | some default =>
      simp only [reduceCtorEq, false_imp_iff, iff_true]
      split
      · exact Option.some_ne_none default
      · rename_i h
        exact fun hnone => h (Or.inl hnone)

theorem NamesSet.mono (h : NamesSet env s) (ht : t <:+ s) : NamesSet env t :=
  fun ref rest hsuffix => h ref rest (hsuffix.trans ht)

/-- Of a text that fits the grammar, the scan finds every variable that has to be set. -/
theorem Grammatical.namesSet_iff (h : Grammatical s) : NamesSet env s ↔ AllSet env s := by
  induction s using scan_induction with
  | nil =>
      refine iff_of_true (fun ref rest hsuffix _ _ => ?_) (by simp [AllSet, pieces_nil])
      simp [Reference.text, opener] at hsuffix
  | reference ref rest href ih =>
      obtain ⟨hsupported, hrest⟩ := (grammatical_reference href).mp h
      rw [allSet_reference href, ← ih hrest, replacement_ne_none_iff]
      constructor
      · intro hset
        exact ⟨hset ref rest (List.suffix_refl _) href, hset.mono (List.suffix_append _ _)⟩
      · rintro ⟨hset, hset'⟩ ref' rest' hsuffix href'
        -- a reference that stands inside this one would begin with a second opener
        rcases hsupported.suffix_cases hsuffix (ref'.opener_prefix_text rest') with heq | hsuffix
        · obtain ⟨rfl, -⟩ := Reference.text_append_inj href' href heq
          exact hset
        · exact hset' ref' rest' hsuffix href'
  | other c cs hnone ih =>
      obtain ⟨hopener, hcs⟩ := (grammatical_other hnone).mp h
      rw [allSet_other hnone, ← ih hcs]
      refine ⟨fun hset => hset.mono (List.suffix_cons _ _), ?_⟩
      intro hset ref rest hsuffix
      rcases List.suffix_cons_iff.mp hsuffix with heq | hsuffix
      · exact absurd (heq ▸ ref.opener_prefix_text rest) hopener
      · exact hset ref rest hsuffix

/-- What results is the expansion of a text that fits the grammar. -/
theorem Grammatical.expands (h : Grammatical s) (hset : AllSet env s) :
    Expands env s (result env s) := by
  induction s using scan_induction with
  | nil => exact .nil
  | reference ref rest href ih =>
      obtain ⟨hsupported, hrest⟩ := (grammatical_reference href).mp h
      obtain ⟨hvalue, hset⟩ := (allSet_reference href).mp hset
      obtain ⟨value, hvalue⟩ := Option.ne_none_iff_exists'.mp hvalue
      rw [result_reference href, hvalue]
      exact .reference hsupported (replacement_eq_some_iff.mp hvalue) (ih hrest hset)
  | other c cs hnone ih =>
      obtain ⟨hopener, hcs⟩ := (grammatical_other hnone).mp h
      rw [result_other hnone]
      exact .other hopener (ih hcs ((allSet_other hnone).mp hset))

/-- An opener that starts no reference is left over. -/
theorem grammatical_of_result
    (hclean : ∀ ref, .inr ref ∈ pieces matchReference s → ref.Supported)
    (hresult : ¬ Pair '$' '{' (result env s)) : Grammatical s := by
  induction s using scan_induction with
  | nil => exact grammatical_nil
  | reference ref rest href ih =>
      rw [pieces_reference href] at hclean
      rw [result_reference href, pair_append, not_or, not_or] at hresult
      exact (grammatical_reference href).mpr ⟨hclean ref List.mem_cons_self,
        ih (fun ref' hmem => hclean ref' (List.mem_cons_of_mem _ hmem)) hresult.2.1⟩
  | other c cs hnone ih =>
      rw [pieces_of_none hnone] at hclean
      rw [result_other hnone, pair_cons, not_or] at hresult
      refine (grammatical_other hnone).mpr ⟨fun hopener => hresult.1 ?_,
        ih (fun ref' hmem => hclean ref' (List.mem_cons_of_mem _ hmem)) hresult.2⟩
      obtain ⟨rfl, hhead⟩ := prefix_pair_iff.mp hopener
      obtain ⟨cs, rfl⟩ := List.head?_eq_some_iff.mp hhead
      -- no reference starts with the brace
      have hbrace : matchReference ('{' :: cs) = none := by
        unfold matchReference
        split <;> simp_all
      rw [result_other hbrace]
      exact ⟨rfl, rfl⟩

/-! ### When a string follows the grammar -/

/-- The texts that are put together, but for empty ones. -/
def parts (env : Environment) (s : Text) : List Text :=
  ((pieces matchReference s).map (inserted env)).filter (· ≠ [])

/-- No opener is left over, inserted, or made where two parts meet. -/
def Clean (env : Environment) (s : Text) : Prop :=
  (∀ part ∈ parts env s, ¬ Pair '$' '{' part) ∧
    (parts env s).IsChain (fun part next => ¬ (part.getLast? = some '$' ∧ next.head? = some '{'))

/-- A reference has a default with an opener in it. -/
def NestedDefault (s : Text) : Prop :=
  ∃ ref default, .inr ref ∈ pieces matchReference s ∧ ref.default = some default ∧
    Pair '$' '{' default

theorem clean_iff : Clean env s ↔ ¬ Pair '$' '{' (result env s) := by
  have hflatten : (parts env s).flatten = result env s := List.flatten_filter_ne_nil
  have hne : ∀ part ∈ parts env s, part ≠ [] := fun part hpart =>
    of_decide_eq_true (List.mem_filter.mp hpart).2
  rw [← hflatten]
  exact (pair_flatten hne).symm

theorem wellFormed_of_mem_pieces (s : Text) :
    ∀ ref, .inr ref ∈ pieces matchReference s → ref.WellFormed := by
  induction s using scan_induction with
  | nil => simp [pieces_nil]
  | reference ref rest href ih =>
      rw [pieces_reference href]
      simpa [href] using ih
  | other c cs hnone ih =>
      rw [pieces_of_none hnone]
      simpa using ih

/-- A clean text does not fit the grammar on account of an unused default only. -/
theorem grammatical_of_clean (hclean : Clean env s) (hnested : ¬ NestedDefault s) :
    Grammatical s := by
  refine grammatical_of_result (fun ref hmem => ?_) (clean_iff.mp hclean)
  -- what is left to show of a reference that was found concerns its default
  refine ⟨wellFormed_of_mem_pieces s ref hmem, fun default hdefault hpair => ?_⟩
  exact hnested ⟨ref, default, hmem, hdefault, hpair⟩

theorem Grammatical.not_nestedDefault (h : Grammatical s) : ¬ NestedDefault s := by
  rintro ⟨ref, default, hmem, hdefault, hpair⟩
  exact (h.supported ref hmem).2 default hdefault hpair

/-- Unless a variable is missing: what is inserted into a text of the grammar makes no opener, and
into a text with an opener in a default it does. -/
def Harmless (env : Environment) (s : Text) : Prop :=
  AllSet env s → (Grammatical s → Clean env s) ∧ (NestedDefault s → ¬ Clean env s)

theorem accepts_iff :
    (∃ t, interpolateStr env keyPath s = .ok t) ↔ AllSet env s ∧ Clean env s := by
  simp [interpolateStr_eq_ok_iff, clean_iff]

theorem Harmless.grammatical (h : Harmless env s) (hset : AllSet env s) (hclean : Clean env s) :
    Grammatical s :=
  grammatical_of_clean hclean fun hnested => (h hset).2 hnested hclean

/-- When a string is treated as the grammar says. -/
theorem followsGrammar_iff : FollowsGrammar env keyPath s ↔ Harmless env s := by
  unfold FollowsGrammar
  rw [accepts_iff]
  constructor
  · rintro ⟨hiff, -⟩ hset
    refine ⟨fun h => (hiff.mpr ⟨h, h.namesSet_iff.mpr hset⟩).2, fun hnested hclean => ?_⟩
    exact (hiff.mp ⟨hset, hclean⟩).1.not_nestedDefault hnested
  · intro h
    refine ⟨?_, fun t ht => ?_⟩
    · constructor
      · rintro ⟨hset, hclean⟩
        have hgram := h.grammatical hset hclean
        exact ⟨hgram, hgram.namesSet_iff.mpr hset⟩
      · rintro ⟨hgram, hnames⟩
        have hset := hgram.namesSet_iff.mp hnames
        exact ⟨hset, (h hset).1 hgram⟩
    · obtain ⟨hset, rfl, hpair⟩ := interpolateStr_eq_ok_iff.mp ht
      exact (h.grammatical hset (clean_iff.mpr hpair)).expands hset

/-! ### Mappings and lists -/

/-- What the parser of the file gives: the keys of a mapping, and what is neither a mapping nor a
list nor a string, are of any type. -/
inductive Node (κ ν : Type) where
  | mapping (entries : List (κ × Node κ ν))
  | list (items : List (Node κ ν))
  | str (text : Text)
  | other (value : ν)

section Nodes

variable {κ ν : Type} (keyText : κ → String)

/-- `f"{key_path}.{key}"`. -/
def keyPathOf (keyPath : String) (key : κ) : String := keyPath ++ "." ++ keyText key

/-- `f"{key_path}[{i}]"`. -/
def indexPath (keyPath : String) (i : Nat) : String := keyPath ++ "[" ++ toString i ++ "]"

mutual
/-- `_interpolate`. -/
def interpolate (env : Environment) (keyPath : String) :
    Node κ ν → Except ConfigError (Node κ ν)
  | .mapping entries => do
      let entries ← interpolateEntries env keyPath entries
      return .mapping entries
  | .list items => do
      let items ← interpolateItems env keyPath 0 items
      return .list items
  | .str text => do
      let text ← interpolateStr env keyPath text
      return .str text
  | .other value => return .other value

def interpolateEntries (env : Environment) (keyPath : String) :
    List (κ × Node κ ν) → Except ConfigError (List (κ × Node κ ν))
  | [] => return []
  | (key, value) :: rest => do
      let value ← interpolate env (keyPathOf keyText keyPath key) value
      let rest ← interpolateEntries env keyPath rest
      return (key, value) :: rest

def interpolateItems (env : Environment) (keyPath : String) (i : Nat) :
    List (Node κ ν) → Except ConfigError (List (Node κ ν))
  | [] => return []
  | value :: rest => do
      let value ← interpolate env (indexPath keyPath i) value
      let rest ← interpolateItems env keyPath (i + 1) rest
      return value :: rest
end

mutual
/-- The strings in a node, and where they stand. -/
def leaves (keyPath : String) : Node κ ν → List (String × Text)
  | .mapping entries => leavesEntries keyPath entries
  | .list items => leavesItems keyPath 0 items
  | .str text => [(keyPath, text)]
  | .other _ => []

def leavesEntries (keyPath : String) : List (κ × Node κ ν) → List (String × Text)
  | [] => []
  | (key, value) :: rest =>
      leaves (keyPathOf keyText keyPath key) value ++ leavesEntries keyPath rest

def leavesItems (keyPath : String) (i : Nat) : List (Node κ ν) → List (String × Text)
  | [] => []
  | value :: rest => leaves (indexPath keyPath i) value ++ leavesItems keyPath (i + 1) rest
end

mutual
/-- A node and another of the same shape, with the same keys and other values, whose strings are
related. -/
inductive Leafwise (R : Text → Text → Prop) : Node κ ν → Node κ ν → Prop
  | mapping {entries entries' : List (κ × Node κ ν)} : LeafwiseEntries R entries entries' →
      Leafwise R (.mapping entries) (.mapping entries')
  | list {items items' : List (Node κ ν)} : LeafwiseItems R items items' →
      Leafwise R (.list items) (.list items')
  | str {text text' : Text} : R text text' → Leafwise R (.str text) (.str text')
  | other {value : ν} : Leafwise R (.other value) (.other value)

inductive LeafwiseEntries (R : Text → Text → Prop) :
    List (κ × Node κ ν) → List (κ × Node κ ν) → Prop
  | nil : LeafwiseEntries R [] []
  | cons {key : κ} {value value' : Node κ ν} {rest rest' : List (κ × Node κ ν)} :
      Leafwise R value value' → LeafwiseEntries R rest rest' →
      LeafwiseEntries R ((key, value) :: rest) ((key, value') :: rest')

inductive LeafwiseItems (R : Text → Text → Prop) : List (Node κ ν) → List (Node κ ν) → Prop
  | nil : LeafwiseItems R [] []
  | cons {value value' : Node κ ν} {rest rest' : List (Node κ ν)} :
      Leafwise R value value' → LeafwiseItems R rest rest' →
      LeafwiseItems R (value :: rest) (value' :: rest')
end

mutual
/-- A node is accepted when each of its strings is. -/
theorem interpolate_accepts (keyPath : String) (node : Node κ ν) :
    (∃ node', interpolate keyText env keyPath node = .ok node') ↔
      ∀ leaf ∈ leaves keyText keyPath node, ∃ t, interpolateStr env leaf.1 leaf.2 = .ok t := by
  cases node with
  | mapping entries =>
      simp only [interpolate, bind_eq_ok_iff, leaves, ← interpolateEntries_accepts keyPath entries]
      simp [pure, Except.pure]
  | list items =>
      simp only [interpolate, bind_eq_ok_iff, leaves, ← interpolateItems_accepts keyPath 0 items]
      simp [pure, Except.pure]
  | str text =>
      simp only [interpolate, bind_eq_ok_iff, leaves, List.forall_mem_singleton]
      simp [pure, Except.pure]
  | other value => simp [interpolate, leaves, pure, Except.pure]

theorem interpolateEntries_accepts (keyPath : String) (entries : List (κ × Node κ ν)) :
    (∃ entries', interpolateEntries keyText env keyPath entries = .ok entries') ↔
      ∀ leaf ∈ leavesEntries keyText keyPath entries,
        ∃ t, interpolateStr env leaf.1 leaf.2 = .ok t := by
  cases entries with
  | nil => simp [interpolateEntries, leavesEntries, pure, Except.pure]
  | cons entry rest =>
      obtain ⟨key, value⟩ := entry
      simp only [interpolateEntries, bind_eq_ok_iff, leavesEntries, List.forall_mem_append,
        ← interpolate_accepts (keyPathOf keyText keyPath key) value,
        ← interpolateEntries_accepts keyPath rest]
      simp [pure, Except.pure]

theorem interpolateItems_accepts (keyPath : String) (i : Nat) (items : List (Node κ ν)) :
    (∃ items', interpolateItems keyText env keyPath i items = .ok items') ↔
      ∀ leaf ∈ leavesItems keyText keyPath i items,
        ∃ t, interpolateStr env leaf.1 leaf.2 = .ok t := by
  cases items with
  | nil => simp [interpolateItems, leavesItems, pure, Except.pure]
  | cons value rest =>
      simp only [interpolateItems, bind_eq_ok_iff, leavesItems, List.forall_mem_append,
        ← interpolate_accepts (indexPath keyPath i) value,
        ← interpolateItems_accepts keyPath (i + 1) rest]
      simp [pure, Except.pure]
end

variable {R : Text → Text → Prop}

mutual
/-- What results has the shape of the node, with what becomes of each string in its place. -/
theorem interpolate_leafwise (keyPath : String) (node : Node κ ν) {node' : Node κ ν}
    (h : interpolate keyText env keyPath node = .ok node')
    (hR : ∀ leaf ∈ leaves keyText keyPath node, ∀ t,
      interpolateStr env leaf.1 leaf.2 = .ok t → R leaf.2 t) : Leafwise R node node' := by
  cases node with
  | mapping entries =>
      obtain ⟨entries', hentries, hnode⟩ := bind_eq_ok_iff.mp h
      cases hnode
      exact .mapping (interpolateEntries_leafwise keyPath entries hentries hR)
  | list items =>
      obtain ⟨items', hitems, hnode⟩ := bind_eq_ok_iff.mp h
      cases hnode
      exact .list (interpolateItems_leafwise keyPath 0 items hitems hR)
  | str text =>
      obtain ⟨text', htext, hnode⟩ := bind_eq_ok_iff.mp h
      cases hnode
      exact .str (hR _ (List.mem_singleton_self _) text' htext)
  | other value =>
      cases h
      exact .other

theorem interpolateEntries_leafwise (keyPath : String) (entries : List (κ × Node κ ν))
    {entries' : List (κ × Node κ ν)}
    (h : interpolateEntries keyText env keyPath entries = .ok entries')
    (hR : ∀ leaf ∈ leavesEntries keyText keyPath entries, ∀ t,
      interpolateStr env leaf.1 leaf.2 = .ok t → R leaf.2 t) :
    LeafwiseEntries R entries entries' := by
  cases entries with
  | nil =>
      cases h
      exact .nil
  | cons entry rest =>
      obtain ⟨key, value⟩ := entry
      obtain ⟨value', hvalue, h⟩ := bind_eq_ok_iff.mp h
      obtain ⟨rest', hrest, h⟩ := bind_eq_ok_iff.mp h
      cases h
      rw [leavesEntries, List.forall_mem_append] at hR
      exact .cons (interpolate_leafwise _ value hvalue hR.1)
        (interpolateEntries_leafwise keyPath rest hrest hR.2)

theorem interpolateItems_leafwise (keyPath : String) (i : Nat) (items : List (Node κ ν))
    {items' : List (Node κ ν)} (h : interpolateItems keyText env keyPath i items = .ok items')
    (hR : ∀ leaf ∈ leavesItems keyText keyPath i items, ∀ t,
      interpolateStr env leaf.1 leaf.2 = .ok t → R leaf.2 t) :
    LeafwiseItems R items items' := by
  cases items with
  | nil =>
      cases h
      exact .nil
  | cons value rest =>
      obtain ⟨value', hvalue, h⟩ := bind_eq_ok_iff.mp h
      obtain ⟨rest', hrest, h⟩ := bind_eq_ok_iff.mp h
      cases h
      rw [leavesItems, List.forall_mem_append] at hR
      exact .cons (interpolate_leafwise _ value hvalue hR.1)
        (interpolateItems_leafwise keyPath (i + 1) rest hrest hR.2)
end

/-- Each string of the node is treated as the grammar says; so the node is accepted exactly when
all of them fit it, and then each is replaced by its expansion and nothing else changes. -/
def NodeFollowsGrammar (env : Environment) (keyPath : String) (node : Node κ ν) : Prop :=
  (∀ leaf ∈ leaves keyText keyPath node, FollowsGrammar env leaf.1 leaf.2) ∧
    ((∃ node', interpolate keyText env keyPath node = .ok node') ↔
      ∀ leaf ∈ leaves keyText keyPath node, Grammatical leaf.2 ∧ NamesSet env leaf.2) ∧
    ∀ node', interpolate keyText env keyPath node = .ok node' →
      Leafwise (Expands env) node node'

/-- **When the configuration follows the grammar.** Exactly when each of its strings is harmless. -/
theorem nodeFollowsGrammar_iff (env : Environment) (keyPath : String) (node : Node κ ν) :
    NodeFollowsGrammar keyText env keyPath node ↔
      ∀ leaf ∈ leaves keyText keyPath node, Harmless env leaf.2 := by
  constructor
  · rintro ⟨hleaves, -, -⟩ leaf hleaf
    exact followsGrammar_iff.mp (hleaves leaf hleaf)
  · intro h
    have hleaves : ∀ leaf ∈ leaves keyText keyPath node, FollowsGrammar env leaf.1 leaf.2 :=
      fun leaf hleaf => followsGrammar_iff.mpr (h leaf hleaf)
    refine ⟨hleaves, ?_, ?_⟩
    · rw [interpolate_accepts]
      exact forall₂_congr fun leaf hleaf => (hleaves leaf hleaf).1
    · intro node' hnode
      exact interpolate_leafwise keyText keyPath node hnode fun leaf hleaf t ht =>
        (hleaves leaf hleaf).2 t ht

/-- The environment in which the variable `A` has a value with an opener in it. -/
def passwordEnv (name : Text) : Option Text :=
  if name = ['A'] then some ['p', '$', '{', 'w'] else none

/-- A value with an opener in it is refused, although the string is a supported reference to a
variable that is set. -/
theorem nodeFollowsGrammar_counterexample :
    ¬ NodeFollowsGrammar (ν := Unit) id passwordEnv "$"
      (.mapping [("password", .str ['$', '{', 'A', '}'])]) := by
  rintro ⟨hleaves, -, -⟩
  obtain ⟨haccepts, -⟩ := hleaves ("$.password", ['$', '{', 'A', '}']) List.mem_cons_self
  have href : Reference.Supported ⟨['A'], none⟩ :=
    ⟨⟨⟨'A', [], rfl, by decide, by decide⟩, by simp⟩, by simp⟩
  have hgram : Grammatical (Reference.text ⟨['A'], none⟩ ++ []) :=
    (grammatical_reference href.1).mpr ⟨href, grammatical_nil⟩
  have hset : AllSet passwordEnv (Reference.text ⟨['A'], none⟩ ++ []) :=
    (allSet_reference href.1).mpr ⟨by decide, by simp [AllSet, pieces_nil]⟩
  obtain ⟨t, ht⟩ := haccepts.mpr ⟨hgram, hgram.namesSet_iff.mpr hset⟩
  have hresult : interpolateStr passwordEnv "$.password" ['$', '{', 'A', '}'] =
      .error (.unsupported "$.password" ['p', '$', '{', 'w']) := by decide
  rw [hresult] at ht
  cases ht

end Nodes

end Relay
