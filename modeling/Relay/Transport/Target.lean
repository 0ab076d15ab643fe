import Relay.Library.Scan
import Mathlib.Data.List.DropRight

/-!
# Relay.Transport.Target

**The URL of the target.** A routed request or connection comes with the percent-decoded path,
without the query; the handlers put a slash before it again, `forward_request` appends it to the
`service_url`, and `to_ws_url` puts it in the place of the path of the `service_url`.

`transparent_iff` says for which service URLs and request targets nothing is lost on the way.
-/

namespace Relay.Target

open Scan

/-! ### Percent-encoding -/

/-- The value of a hexadecimal digit. -/
def hexValue (c : Char) : Option Nat :=
  if c.isDigit then some (c.toNat - '0'.toNat)
  else if 'a' ≤ c ∧ c ≤ 'f' then some (c.toNat - 'a'.toNat + 10)
  else if 'A' ≤ c ∧ c ≤ 'F' then some (c.toNat - 'A'.toNat + 10)
  else none

/-- An escape at the front of the text. -/
def matchEscape : Recogniser Char UInt8
  | '%' :: high :: low :: rest => do
      let h ← hexValue high
      let l ← hexValue low
      return (UInt8.ofNat (16 * h + l), rest)
  | _ => none

/-- A piece of the text as a byte; the text is ASCII. -/
def byteOf : Char ⊕ UInt8 → UInt8
  | .inl c => UInt8.ofNat c.toNat
  | .inr byte => byte

/-- `unquote_to_bytes`. -/
def unquoteToBytes (s : Text) : List UInt8 := (pieces matchEscape s).map byteOf

/-- What stands for bytes that are not UTF-8. -/
def replacementChar : Char := '\uFFFD'

def isTail (byte : UInt8) : Bool := 0x80 ≤ byte && byte ≤ 0xBF

/-- Whether a byte may follow the first one of a character. -/
def isSecond (first byte : UInt8) : Bool :=
  if first = 0xE0 then 0xA0 ≤ byte && byte ≤ 0xBF
  else if first = 0xED then 0x80 ≤ byte && byte ≤ 0x9F
  else if first = 0xF0 then 0x90 ≤ byte && byte ≤ 0xBF
  else if first = 0xF4 then 0x80 ≤ byte && byte ≤ 0x8F
  else isTail byte

/-- The last six bits of a byte. -/
def tailBits (byte : UInt8) : Nat := byte.toNat % 64

/-- The last `n` bytes of a character, after those that give `code`. -/
def decodeTail : Nat → Nat → List UInt8 → Char × List UInt8
  | 0, code, bytes => (Char.ofNat code, bytes)
  | _ + 1, _, [] => (replacementChar, [])
  | n + 1, code, byte :: rest =>
      if isTail byte then decodeTail n (64 * code + tailBits byte) rest
      else (replacementChar, byte :: rest)

/-- A character whose first byte gives `code`, and whose second has `n` bytes behind it. -/
def decodeMore (first : UInt8) (n code : Nat) : List UInt8 → Char × List UInt8
  | [] => (replacementChar, [])
  | second :: rest =>
      if isSecond first second then decodeTail n (64 * code + tailBits second) rest
      else (replacementChar, second :: rest)

/-- The next character. Where the bytes are not UTF-8, the longest part that begins one, or else
a single byte, is replaced. -/
def decodeChar : Recogniser UInt8 Char
  | [] => none
  | first :: rest =>
      if first < 0x80 then some (Char.ofNat first.toNat, rest)
      else if 0xC2 ≤ first ∧ first ≤ 0xDF then some (decodeMore first 0 (first.toNat % 32) rest)
      else if 0xE0 ≤ first ∧ first ≤ 0xEF then some (decodeMore first 1 (first.toNat % 16) rest)
      else if 0xF0 ≤ first ∧ first ≤ 0xF4 then some (decodeMore first 2 (first.toNat % 8) rest)
      else some (replacementChar, rest)

/-- `bytes.decode("utf-8", "replace")`. -/
def decodeUtf8 (bytes : List UInt8) : Text :=
  (pieces decodeChar bytes).filterMap Sum.getRight?

/-- `unquote`, of an ASCII text. -/
def unquote (s : Text) : Text := decodeUtf8 (unquoteToBytes s)

variable {s rest : Text} {bytes : List UInt8} {c : Char} {first byte : UInt8}

theorem length_matchEscape (s : Text) (byte : UInt8) (rest : Text)
    (h : matchEscape s = some (byte, rest)) : rest.length + 1 < s.length := by
  unfold matchEscape at h
  split at h
  · rename_i high low rest'
    obtain ⟨h', -, h⟩ := Option.bind_eq_some_iff.mp h
    obtain ⟨l, -, h⟩ := Option.bind_eq_some_iff.mp h
    cases h
    simp
  · cases h

theorem consumes_matchEscape : Consumes matchEscape := fun s byte rest h =>
  Nat.lt_of_succ_lt (length_matchEscape s byte rest h)

theorem length_decodeTail (n code : Nat) (bytes : List UInt8) :
    (decodeTail n code bytes).2.length ≤ bytes.length := by
  induction bytes generalizing n code with
  | nil => cases n <;> exact Nat.le_refl _
  | cons byte rest ih =>
      cases n with
      | zero => exact Nat.le_refl _
      | succ n =>
          rw [decodeTail]
          split
          · exact (ih n _).trans (Nat.le_succ _)
          · exact Nat.le_refl _

theorem length_decodeMore (first : UInt8) (n code : Nat) (bytes : List UInt8) :
    (decodeMore first n code bytes).2.length ≤ bytes.length := by
  cases bytes with
  | nil => exact Nat.le_refl _
  | cons second rest =>
      rw [decodeMore]
      split
      · exact (length_decodeTail n _ rest).trans (Nat.le_succ _)
      · exact Nat.le_refl _

theorem decodeChar_cons (first : UInt8) (rest : List UInt8) :
    ∃ p, decodeChar (first :: rest) = some p ∧ p.2.length ≤ rest.length := by
  simp only [decodeChar]
  split_ifs
  · exact ⟨_, rfl, Nat.le_refl _⟩
  · exact ⟨_, rfl, length_decodeMore first 0 _ rest⟩
  · exact ⟨_, rfl, length_decodeMore first 1 _ rest⟩
  · exact ⟨_, rfl, length_decodeMore first 2 _ rest⟩
  · exact ⟨_, rfl, Nat.le_refl _⟩

theorem consumes_decodeChar : Consumes decodeChar := by
  intro bytes c rest h
  cases bytes with
  | nil => cases h
  | cons first tail =>
      obtain ⟨p, hp, hle⟩ := decodeChar_cons first tail
      cases hp.symm.trans h
      exact Nat.lt_succ_of_le hle

theorem length_decodeUtf8_le (bytes : List UInt8) :
    (decodeUtf8 bytes).length ≤ bytes.length :=
  (List.length_filterMap_le _ _).trans (length_pieces_le consumes_decodeChar bytes)

/-- An ASCII text is its own encoding. -/
theorem decodeUtf8_ascii (hs : ∀ c ∈ s, c.toNat < 128) :
    decodeUtf8 (s.map fun c => UInt8.ofNat c.toNat) = s := by
  induction s with
  | nil => rfl
  | cons c s ih =>
      have hc := hs c List.mem_cons_self
      -- the byte of an ASCII character is its code point, and decodes to it by itself
      have hbyte : (UInt8.ofNat c.toNat).toNat = c.toNat := by simp; omega
      have hsmall : UInt8.ofNat c.toNat < 0x80 := by
        rw [UInt8.lt_iff_toNat_lt, hbyte]
        exact hc
      have hnext : decodeChar (UInt8.ofNat c.toNat :: s.map fun c => UInt8.ofNat c.toNat) =
          some (c, s.map fun c => UInt8.ofNat c.toNat) := by
        rw [decodeChar, if_pos hsmall, hbyte, Char.ofNat_toNat]
      have hrest := ih fun c' hc' => hs c' (List.mem_cons_of_mem c hc')
      rw [decodeUtf8] at hrest ⊢
      rw [List.map_cons, pieces_of_some consumes_decodeChar hnext (List.cons_ne_nil _ _)]
      simp [hrest]

/-- No escape stands in the text. -/
def Plain (s : Text) : Prop := ∀ t, t <:+ s → matchEscape t = none

theorem unquote_of_plain (hs : ∀ c ∈ s, c.toNat < 128) (h : Plain s) : unquote s = s := by
  have hpieces := (pieces_eq_map_inl_iff consumes_matchEscape).mpr h
  rw [unquote, unquoteToBytes, hpieces, List.map_map]
  exact decodeUtf8_ascii hs

theorem length_unquote_le (s : Text) : (unquote s).length ≤ s.length := by
  refine (length_decodeUtf8_le _).trans ?_
  rw [unquoteToBytes, List.length_map]
  exact length_pieces_le consumes_matchEscape s

/-- An escape is three symbols and stands for one byte. -/
theorem length_unquote_lt (h : ¬ Plain s) : (unquote s).length < s.length := by
  refine Nat.lt_of_le_of_lt (length_decodeUtf8_le _) ?_
  rw [unquoteToBytes, List.length_map]
  exact length_pieces_lt length_matchEscape
    (mt (pieces_eq_map_inl_iff consumes_matchEscape).mp h)

example : unquote ['/', 'a', '%', '2', 'F', '%', 'c', '3', '%', 'A', '9', '%', 'z'] =
    ['/', 'a', '/', 'é', '%', 'z'] := by decide

/-! ### Splitting a URL -/

/-- `urlsplit(url)`. -/
structure SplitResult where
  scheme : Text
  netloc : Text
  path : Text
  query : Text
  fragment : Text
  deriving DecidableEq, Repr

/-- `_WHATWG_C0_CONTROL_OR_SPACE`. -/
def isControlOrSpace (c : Char) : Bool := c.toNat ≤ 0x20

/-- `_UNSAFE_URL_BYTES_TO_REMOVE`. -/
def isUnsafe (c : Char) : Bool := c = '\t' || c = '\r' || c = '\n'

/-- `scheme_chars`. -/
def isSchemeChar (c : Char) : Bool := c.isAlphanum || c = '+' || c = '-' || c = '.'

/-- Where the host ends. -/
def isDelim (c : Char) : Bool := c = '/' || c = '?' || c = '#'

/-- The scheme and what follows its colon. -/
def splitScheme (url : Text) : Text × Text :=
  match url.takeWhile (· ≠ ':'), url.dropWhile (· ≠ ':') with
  | c :: cs, _ :: rest =>
      if c.isAlpha && (c :: cs).all isSchemeChar then ((c :: cs).map Char.toLower, rest)
      else ([], url)
  | _, _ => ([], url)

/-- `_splitnetloc`, when there is a host. -/
def splitNetloc : Text → Text × Text
  | '/' :: '/' :: rest => (rest.takeWhile (! isDelim ·), rest.dropWhile (! isDelim ·))
  | url => ([], url)

/-- `urlsplit`, of a URL with a well-formed host. -/
def urlsplit (url : Text) : SplitResult :=
  let url := (url.dropWhile isControlOrSpace).filter (! isUnsafe ·)
  let (scheme, url) := splitScheme url
  let (netloc, url) := splitNetloc url
  let fragment := (url.dropWhile (· ≠ '#')).drop 1
  let url := url.takeWhile (· ≠ '#')
  let query := (url.dropWhile (· ≠ '?')).drop 1
  let path := url.takeWhile (· ≠ '?')
  { scheme, netloc, path, query, fragment }

/-- `uses_netloc`, of the schemes that occur. -/
def usesNetloc (scheme : Text) : Bool := scheme = ['w', 's'] || scheme = ['w', 's', 's']

/-- `urlunsplit`. -/
def urlunsplit (parts : SplitResult) : Text :=
  let url := parts.path
  let url :=
    if parts.netloc ≠ [] ∨ usesNetloc parts.scheme ∨ url.take 2 = ['/', '/'] then
      ['/', '/'] ++ parts.netloc ++
        (if url ≠ [] ∧ url.take 1 ≠ ['/'] then '/' :: url else url)
    else url
  let url := if parts.scheme ≠ [] then parts.scheme ++ ':' :: url else url
  let url := if parts.query ≠ [] then url ++ '?' :: parts.query else url
  if parts.fragment ≠ [] then url ++ '#' :: parts.fragment else url

/-- `to_ws_url`. -/
def toWsUrl (baseUrl path : Text) : Text :=
  let parts := urlsplit baseUrl
  let scheme := if parts.scheme = ['h', 't', 't', 'p', 's'] then ['w', 's', 's'] else ['w', 's']
  urlunsplit ⟨scheme, parts.netloc, path, [], []⟩

/-! ### Service URLs and request targets -/

inductive Scheme where
  | http
  | https
  deriving DecidableEq, Repr

def Scheme.text : Scheme → Text
  | .http => ['h', 't', 't', 'p']
  | .https => ['h', 't', 't', 'p', 's']

/-- The scheme for connections. -/
def Scheme.ws : Scheme → Text
  | .http => ['w', 's']
  | .https => ['w', 's', 's']

/-- What the configuration makes of a `service_url`. -/
def serviceUrl (value : Text) : Text := value.rdropWhile (· = '/')

/-- A `service_url` in the configuration: the scheme in any case, the host, and what follows it,
if anything does, without slashes at its end. -/
structure ServiceUrl where
  scheme : Scheme
  spelling : Text
  netloc : Text
  base : Text
  spelling_lower : spelling.map Char.toLower = scheme.text
  netloc_ne : netloc ≠ []
  netloc_all : netloc.all (fun c => ! isDelim c && ! isUnsafe c) = true
  base_head : ∀ c ∈ base.head?, isDelim c = true
  base_last : base.getLast? ≠ some '/'

namespace ServiceUrl

def text (u : ServiceUrl) : Text := u.spelling ++ [':', '/', '/'] ++ u.netloc ++ u.base

/-- The same with the scheme for connections. -/
def wsText (u : ServiceUrl) : Text := u.scheme.ws ++ [':', '/', '/'] ++ u.netloc ++ u.base

end ServiceUrl

theorem rdropWhile_append {p : Char → Bool} {xs : Text} (hlast : ∀ c ∈ xs.getLast?, p c = false)
    (ys : Text) : (xs ++ ys).rdropWhile p = xs ++ ys.rdropWhile p := by
  induction ys using List.reverseRecOn with
  | nil =>
      rw [List.append_nil, List.rdropWhile_nil, List.append_nil, List.rdropWhile_eq_self_iff]
      intro hne
      simp [hlast _ (List.getLast?_eq_some_getLast hne)]
  | append_singleton ys c ih =>
      rw [← List.append_assoc, List.rdropWhile_concat, List.rdropWhile_concat, ih]
      split <;> simp

/-- Every URL with a host becomes a service URL when the configuration has taken the slashes off
its end. -/
theorem exists_serviceUrl (scheme : Scheme) {spelling netloc base : Text}
    (spelling_lower : spelling.map Char.toLower = scheme.text) (netloc_ne : netloc ≠ [])
    (netloc_all : netloc.all (fun c => ! isDelim c && ! isUnsafe c) = true)
    (base_head : ∀ c ∈ base.head?, isDelim c = true) :
    ∃ u : ServiceUrl, u.text = serviceUrl (spelling ++ [':', '/', '/'] ++ netloc ++ base) := by
  have hlast : ∀ c ∈ (spelling ++ [':', '/', '/'] ++ netloc).getLast?,
      decide (c = '/') = false := by
    rw [List.getLast?_append_of_ne_nil _ netloc_ne]
    intro c hc
    have hdelim := (Bool.and_eq_true_iff.mp
      (List.all_eq_true.mp netloc_all c (List.mem_of_mem_getLast? hc))).1
    rw [decide_eq_false_iff_not]
    rintro rfl
    exact absurd hdelim (by decide)
  refine ⟨⟨scheme, spelling, netloc, serviceUrl base, spelling_lower, netloc_ne, netloc_all,
    ?_, ?_⟩, (rdropWhile_append hlast base).symm⟩
  · -- what is left of it begins as it does
    intro c hc
    obtain ⟨rest, hrest⟩ := List.rdropWhile_prefix (fun c => decide (c = '/')) (l := base)
    obtain ⟨cs, hcs⟩ := List.head?_eq_some_iff.mp hc
    refine base_head c ?_
    rw [← hrest, show base.rdropWhile _ = c :: cs from hcs]
    rfl
  · intro hslash
    have hne : serviceUrl base ≠ [] := fun hnil => by simp [hnil] at hslash
    have hslash' := List.rdropWhile_last_not (fun c => decide (c = '/')) base hne
    rw [List.getLast?_eq_some_getLast hne] at hslash
    exact hslash' (decide_eq_true (Option.some.inj hslash))

/-- What a client requests: a path, and a query if there is one. -/
structure RequestTarget where
  rawPath : Text
  query : Option Text
  head : rawPath.head? = some '/'
  ascii : ∀ c ∈ rawPath, c.toNat < 128
  noQuery : '?' ∉ rawPath

namespace RequestTarget

/-- The query as it stands behind the path. -/
def queryText (t : RequestTarget) : Text :=
  match t.query with
  | none => []
  | some query => '?' :: query

def text (t : RequestTarget) : Text := t.rawPath ++ t.queryText

/-- `{path:path}` of the route, which does not take in the first slash. -/
def path (t : RequestTarget) : Text := (unquote t.rawPath).drop 1

/-- `full_path`, in `proxy` and in `ws_proxy`. -/
def fullPath (t : RequestTarget) : Text := '/' :: t.path

end RequestTarget

/-- The URL of `forward_request`. -/
def httpUrl (u : ServiceUrl) (t : RequestTarget) : Text := u.text ++ t.fullPath

/-- The URL that `tunnel` connects to. -/
def wsUrl (u : ServiceUrl) (t : RequestTarget) : Text := toWsUrl u.text t.fullPath

/-! ### What the URLs are -/

theorem isAlpha_of_toLower (h : c.toLower.isAlpha = true) : c.isAlpha = true := by
  unfold Char.toLower at h
  split at h
  · rename_i hupper
    exact Bool.or_eq_true_iff.mpr (Or.inl (decide_eq_true hupper))
  · exact h

theorem lt_toNat_of_isAlpha (h : c.isAlpha = true) : 32 < c.toNat := by
  rcases Bool.or_eq_true_iff.mp h with hupper | hlower
  · have hA : 65 ≤ c.toNat := UInt32.le_iff_toNat_le.mp (of_decide_eq_true hupper).1
    omega
  · have ha : 97 ≤ c.toNat :=
      UInt32.le_iff_toNat_le.mp (of_decide_eq_true (Bool.and_eq_true_iff.mp hlower).1)
    omega

/-- A letter is nothing that `urlsplit` looks for. -/
theorem isAlpha_cases (h : c.isAlpha = true) :
    isControlOrSpace c = false ∧ isUnsafe c = false ∧ isSchemeChar c = true ∧ c ≠ ':' := by
  have hne : ∀ d : Char, d.isAlpha = false → c ≠ d := by
    rintro d hd rfl
    rw [h] at hd
    cases hd
  have halphanum : c.isAlphanum = true := Bool.or_eq_true_iff.mpr (Or.inl h)
  refine ⟨?_, ?_, by simp [isSchemeChar, halphanum], hne ':' (by decide)⟩
  · exact decide_eq_false (Nat.not_le.mpr (lt_toNat_of_isAlpha h))
  · simp [isUnsafe, hne '\t' (by decide), hne '\r' (by decide), hne '\n' (by decide)]

theorem not_isUnsafe_of_isDelim (h : isDelim c = true) : isUnsafe c = false := by
  simp only [isDelim, Bool.or_eq_true, decide_eq_true_eq] at h
  rcases h with (rfl | rfl) | rfl <;> decide

namespace ServiceUrl

variable (u : ServiceUrl)

theorem isAlpha_of_mem_spelling : ∀ c ∈ u.spelling, c.isAlpha = true := by
  have hscheme : u.scheme.text.all Char.isAlpha = true := by cases u.scheme <;> decide
  rw [← u.spelling_lower, List.all_map] at hscheme
  exact fun c hc => isAlpha_of_toLower (List.all_eq_true.mp hscheme c hc)

theorem spelling_ne : u.spelling ≠ [] := by
  intro h
  have hscheme := u.spelling_lower
  rw [h] at hscheme
  cases hs : u.scheme <;> rw [hs] at hscheme <;> cases hscheme

/-- What `urlsplit` works on. -/
def stripped (u : ServiceUrl) : Text :=
  u.spelling ++ ':' :: '/' :: '/' :: (u.netloc ++ u.base.filter (! isUnsafe ·))

theorem strip_text : (u.text.dropWhile isControlOrSpace).filter (! isUnsafe ·) = u.stripped := by
  have hdrop : u.text.dropWhile isControlOrSpace = u.text := by
    obtain ⟨c, cs, hspelling⟩ := List.exists_cons_of_ne_nil u.spelling_ne
    have hc : c.isAlpha = true := u.isAlpha_of_mem_spelling c (by simp [hspelling])
    simp [text, hspelling, (isAlpha_cases hc).1]
  have hspelling : u.spelling.filter (! isUnsafe ·) = u.spelling :=
    List.filter_eq_self.mpr fun c hc => by
      simp [(isAlpha_cases (u.isAlpha_of_mem_spelling c hc)).2.1]
  have hnetloc : u.netloc.filter (! isUnsafe ·) = u.netloc :=
    List.filter_eq_self.mpr fun c hc =>
      (Bool.and_eq_true_iff.mp (List.all_eq_true.mp u.netloc_all c hc)).2
  have hcolon : [':', '/', '/'].filter (! isUnsafe ·) = [':', '/', '/'] := by decide
  rw [hdrop, text, List.filter_append, List.filter_append, List.filter_append, hspelling, hnetloc,
    hcolon]
  simp [stripped]

theorem splitScheme_stripped : splitScheme u.stripped =
    (u.scheme.text, '/' :: '/' :: (u.netloc ++ u.base.filter (! isUnsafe ·))) := by
  have hall : u.spelling.all (· ≠ ':') = true := List.all_eq_true.mpr fun c hc => by
    simpa using (isAlpha_cases (u.isAlpha_of_mem_spelling c hc)).2.2.2
  have hscheme : u.spelling.all isSchemeChar = true := List.all_eq_true.mpr fun c hc =>
    (isAlpha_cases (u.isAlpha_of_mem_spelling c hc)).2.2.1
  have hcolon : ∀ c ∈ (':' :: '/' :: '/' :: (u.netloc ++ u.base.filter (! isUnsafe ·))).head?,
      decide (c ≠ ':') = false := by
    simp
  obtain ⟨htake, hdrop⟩ := span_of_all hall hcolon
  obtain ⟨c, cs, hspelling⟩ := List.exists_cons_of_ne_nil u.spelling_ne
  have hc : c.isAlpha = true := u.isAlpha_of_mem_spelling c (by simp [hspelling])
  rw [splitScheme, stripped, htake, hdrop, ← u.spelling_lower]
  rw [hspelling] at hscheme ⊢
  simp [hc, hscheme]

theorem base_filter_head : ∀ c ∈ (u.base.filter (! isUnsafe ·)).head?, isDelim c = true := by
  have hhead := u.base_head
  cases hbase : u.base with
  | nil => simp
  | cons c cs =>
      rw [hbase] at hhead
      have hc : isDelim c = true := hhead c rfl
      simpa [not_isUnsafe_of_isDelim hc] using hc

theorem urlsplit_text :
    (urlsplit u.text).scheme = u.scheme.text ∧ (urlsplit u.text).netloc = u.netloc := by
  have hnetloc : u.netloc.all (! isDelim ·) = true := List.all_eq_true.mpr fun c hc =>
    (Bool.and_eq_true_iff.mp (List.all_eq_true.mp u.netloc_all c hc)).1
  have hdelim : ∀ c ∈ (u.base.filter (! isUnsafe ·)).head?, (! isDelim c) = false :=
    fun c hc => by simp [u.base_filter_head c hc]
  have htake := (span_of_all hnetloc hdelim).1
  simp only [urlsplit, strip_text, splitScheme_stripped, splitNetloc, htake, and_self]

end ServiceUrl

/-- The decoded path begins with the slash that the route takes away. -/
theorem fullPath_eq (t : RequestTarget) : t.fullPath = unquote t.rawPath := by
  obtain ⟨rest, hraw⟩ := List.head?_eq_some_iff.mp t.head
  -- the slash at the front is no escape and decodes to itself
  have hnone : matchEscape ('/' :: rest) = none := rfl
  have hnext (bytes : List UInt8) : decodeChar (byteOf (.inl '/') :: bytes) = some ('/', bytes) :=
    rfl
  have hunquote : unquote t.rawPath = '/' :: unquote rest := by
    rw [hraw, unquote, unquoteToBytes, pieces_of_none hnone, List.map_cons, decodeUtf8,
      pieces_of_some consumes_decodeChar (hnext _) (List.cons_ne_nil _ _)]
    rfl
  rw [RequestTarget.fullPath, RequestTarget.path, hunquote]
  rfl

theorem httpUrl_eq (u : ServiceUrl) (t : RequestTarget) :
    httpUrl u t = u.spelling ++ [':', '/', '/'] ++ u.netloc ++ u.base ++ unquote t.rawPath := by
  rw [httpUrl, ServiceUrl.text, fullPath_eq]

/-- What follows the host of the service URL does not get into the URL of a connection. -/
theorem wsUrl_eq (u : ServiceUrl) (t : RequestTarget) :
    wsUrl u t = u.scheme.ws ++ [':', '/', '/'] ++ u.netloc ++ unquote t.rawPath := by
  obtain ⟨hscheme, hnetloc⟩ := u.urlsplit_text
  rw [wsUrl, ← fullPath_eq]
  simp only [toWsUrl, hscheme, hnetloc, urlunsplit, RequestTarget.fullPath]
  cases u.scheme <;> simp [Scheme.text, Scheme.ws, u.netloc_ne]

/-! ### When nothing is lost -/

/-- Both URLs are the service URL followed by what the client requests. -/
def Forwards (u : ServiceUrl) (t : RequestTarget) : Prop :=
  httpUrl u t = u.text ++ t.text ∧ wsUrl u t = u.wsText ++ t.text

/-- Both transports reach the same host, path and query. -/
def Agrees (u : ServiceUrl) (t : RequestTarget) : Prop :=
  ∃ upstream, httpUrl u t = u.spelling ++ upstream ∧ wsUrl u t = u.scheme.ws ++ upstream

/-- Two requests are forwarded to what they ask for, by either transport; so they go to the same
URL only when they ask for the same. -/
def Transparent (u : ServiceUrl) (t t' : RequestTarget) : Prop :=
  (Forwards u t ∧ Forwards u t') ∧ (Agrees u t ∧ Agrees u t') ∧
    (t.text ≠ t'.text → httpUrl u t ≠ httpUrl u t' ∧ wsUrl u t ≠ wsUrl u t')

/-- There is nothing to decode and no query. -/
def RequestTarget.Verbatim (t : RequestTarget) : Prop := t.query = none ∧ Plain t.rawPath

/-- The decoded path is the whole target when nothing in it is decoded or left out. -/
theorem unquote_eq_text_iff (t : RequestTarget) : unquote t.rawPath = t.text ↔ t.Verbatim := by
  constructor
  · intro h
    have hlength := congrArg List.length h
    rw [RequestTarget.text, List.length_append] at hlength
    -- decoding never lengthens the path, so neither a query nor an escape leaves room for equality
    refine ⟨?_, ?_⟩
    · have hle := length_unquote_le t.rawPath
      cases hquery : t.query with
      | none => rfl
      | some query =>
          simp only [RequestTarget.queryText, hquery, List.length_cons] at hlength
          omega
    · by_contra hplain
      have hlt := length_unquote_lt hplain
      omega
  · rintro ⟨hquery, hplain⟩
    rw [unquote_of_plain t.ascii hplain, RequestTarget.text, RequestTarget.queryText, hquery,
      List.append_nil]

theorem forwards_iff (u : ServiceUrl) (t : RequestTarget) :
    Forwards u t ↔ u.base = [] ∧ t.Verbatim := by
  rw [Forwards, httpUrl_eq, wsUrl_eq, ServiceUrl.text, ServiceUrl.wsText, ← unquote_eq_text_iff]
  constructor
  · rintro ⟨hhttp, hws⟩
    -- the URL for HTTP decides about the path, the one for connections about the base
    have hpath : unquote t.rawPath = t.text := List.append_cancel_left hhttp
    refine ⟨?_, hpath⟩
    rw [← hpath, List.append_assoc _ u.base, List.append_right_inj] at hws
    simpa using hws
  · rintro ⟨hbase, hpath⟩
    simp [hbase, hpath]

theorem Forwards.agrees {u : ServiceUrl} {t : RequestTarget} (h : Forwards u t) : Agrees u t := by
  refine ⟨[':', '/', '/'] ++ u.netloc ++ u.base ++ t.text, ?_, ?_⟩
  · rw [h.1, ServiceUrl.text]
    simp
  · rw [h.2, ServiceUrl.wsText]
    simp

/-- **When requests are forwarded verbatim.** The service URL ends with the host, and the requests
have no query and no escapes. -/
theorem transparent_iff (u : ServiceUrl) (t t' : RequestTarget) :
    Transparent u t t' ↔ u.base = [] ∧ t.Verbatim ∧ t'.Verbatim := by
  have hboth : Forwards u t ∧ Forwards u t' ↔ u.base = [] ∧ t.Verbatim ∧ t'.Verbatim := by
    rw [forwards_iff, forwards_iff]
    tauto
  rw [Transparent, ← hboth]
  refine ⟨And.left, fun h => ⟨h, ⟨h.1.agrees, h.2.agrees⟩, ?_⟩⟩
  intro hne
  rw [h.1.1, h.2.1, h.1.2, h.2.2]
  exact ⟨fun heq => hne (List.append_cancel_left heq), fun heq => hne (List.append_cancel_left heq)⟩

/-- A service URL with a base path. -/
def boxUrl : ServiceUrl where
  scheme := .http
  spelling := ['h', 't', 't', 'p']
  netloc := ['b', 'o', 'x']
  base := ['/', 'v', '1']
  spelling_lower := by decide
  netloc_ne := by decide
  netloc_all := by decide
  base_head := by simp [isDelim]
  base_last := by simp

/-- A request with a query. -/
def searchTarget : RequestTarget where
  rawPath := ['/', 'a']
  query := some ['q']
  head := rfl
  ascii := by simp
  noQuery := by decide

/-- The query is not forwarded, and the base path does not get into the URL of a connection. -/
theorem transparent_counterexample : ¬ Transparent boxUrl searchTarget searchTarget := by
  rintro ⟨⟨⟨hhttp, -⟩, -⟩, -⟩
  exact absurd hhttp (by decide)

end Relay.Target
