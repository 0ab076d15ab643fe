import Relay.Clients.Identity
import Mathlib.Data.List.Nodup

/-!
# Relay.Clients.Attribution

**Whose session an HTTP request belongs to** (`resolve_session_id` of `relay/endpoints.py`).

`detect_client` and `session_header_value` are two loops, and the second one does not ask for the
`User-Agent`. `Attributed` says what they come to together: the first client in the configured
order that the headers match, with a plain header before a gated one, and a gated one only under
the client's own `User-Agent`.

`extract_body_field` catches what `json.loads` raises on a text that is no JSON, and nothing else:
on a body that is nested too deeply the request has no session at all. `resolveSessionId_iff` says
that this is the only exception.
-/

namespace Relay

/-! ### The body of a request -/

/-- What `json.loads` returns. An object has the entries as they were written. -/
inductive Json
  | null
  | bool (value : Bool)
  /-- An `int` or a `float`, by what `str` makes of it. -/
  | number (text : String)
  | string (text : String)
  | array (items : List Json)
  | object (entries : List (String × Json))

namespace Json

/-- `data[part]`, where `data` is a dictionary that has the key. Of equal keys the last counts. -/
def member? : Json → String → Option Json
  | object entries, part =>
      (entries.reverse.find? (fun entry => entry.1 = part)).map Prod.snd
  | _, _ => none

/-- The loop of `extract_body_field`. -/
def walk (data : Json) : List String → Option Json
  | [] => some data
  | part :: parts => (data.member? part).bind (fun data => data.walk parts)

/-- The session id a value stands for. -/
def sessionId? : Json → Option String
  | string text => if text = "" then none else some text
  | number text => some text
  | _ => none

end Json

/-- `dotted_path.split(".")`. -/
def splitDots (dottedPath : String) : List String :=
  (dottedPath.toList.splitOn '.').map String.ofList

/-- What `json.loads` raises. A text that is no JSON is a `ValueError`; one that is nested deeper
than the interpreter's stack allows is a `RecursionError`. -/
inductive LoadsError
  | valueError
  | typeError
  | recursionError
  | memoryError
  deriving DecidableEq, Repr

/-- `except (ValueError, TypeError)`. -/
def LoadsError.isCaught : LoadsError → Bool
  | valueError | typeError => true
  | recursionError | memoryError => false

/-- The session id under a dotted path of a document. -/
def Json.field? (data : Json) (dottedPath : String) : Option String :=
  (data.walk (splitDots dottedPath)).bind sessionId?

/-- `extract_body_field`. -/
def extractBodyField (loads : List UInt8 → Except LoadsError Json) (body : List UInt8)
    (dottedPath : String) : Except LoadsError (Option String) :=
  match loads body with
  | .ok data => .ok (data.field? dottedPath)
  | .error error => if error.isCaught then .ok none else .error error

/-! ### The session of a request -/

/-- What `resolve_session_id` reads of a request. -/
structure SessionRequest where
  headers : Fields
  body : List UInt8
  /-- `request.client.host`. -/
  clientHost : Option String
  deriving DecidableEq, Repr

namespace SessionRequest

/-- The id of last resort. -/
def fallback (request : SessionRequest) : String :=
  "ua:" ++ userAgent request.headers.lowered ++ "|ip:" ++ request.clientHost.getD "unknown"

/-- The loop over the body fields of the endpoint. -/
def bodySession (loads : List UInt8 → Except LoadsError Json) (request : SessionRequest) :
    List String → Except LoadsError (Option String)
  | [] => .ok none
  | dotted :: bodyFields =>
      match extractBodyField loads request.body dotted with
      | .ok (some value) => .ok (some value)
      | .ok none => request.bodySession loads bodyFields
      | .error error => .error error

/-- `resolve_session_id`: the client's name and the session id. -/
def resolveSessionId (loads : List UInt8 → Except LoadsError Json) (request : SessionRequest)
    (bodyFields : List String) (providers : List ClientProvider) (genericHeaders : List String) :
    Except LoadsError (String × String) :=
  let lowered := request.headers.lowered
  match ((detectClient lowered providers).bind (Upgrade.ownSession lowered)).or
      (Upgrade.genericSession lowered genericHeaders) with
  | some result => .ok result
  | none => (request.bodySession loads bodyFields).map fun found =>
      ("unknown", found.getD request.fallback)

end SessionRequest

/-! ### What the headers carry -/

namespace Fields

variable {headers : Fields} {name value : String} {names : List String}

/-- The names differ in more than case. -/
def DistinctNames (headers : Fields) : Prop :=
  (headers.map (fun field => lower field.1)).Nodup

instance (headers : Fields) : Decidable headers.DistinctNames :=
  inferInstanceAs (Decidable (List.Nodup _))

/-- A header has a name, given in lower case, and a value that is not empty. -/
def Carries (headers : Fields) (name value : String) : Prop :=
  (∃ field ∈ headers, lower field.1 = name ∧ field.2 = value) ∧ value ≠ ""

/-- The first of some names that is carried at all is carried with a value. -/
def CarriesFirst (headers : Fields) (names : List String) (value : String) : Prop :=
  ∃ before name after, names = before ++ name :: after ∧ headers.Carries name value ∧
    ∀ earlier ∈ before, ∀ other, ¬ headers.Carries earlier other

/-- Some of the names is carried. -/
def CarriesAny (headers : Fields) (names : List String) : Prop :=
  ∃ name ∈ names, ∃ value, headers.Carries name value

theorem DistinctNames.lowered (h : headers.DistinctNames) :
    (headers.lowered.map Prod.fst).Nodup := by
  unfold Fields.lowered
  rw [List.map_map]
  exact h

/-- Among distinct names it does not matter which one comes last. -/
theorem get?_eq_some_iff (h : (headers.map Prod.fst).Nodup) :
    headers.get? name = some value ↔ (name, value) ∈ headers := by
  constructor
  · intro hget
    obtain ⟨field, hfind, rfl⟩ := Option.map_eq_some_iff.mp hget
    have hname : field.1 = name := by simpa using List.find?_some hfind
    have hmem := List.mem_reverse.mp (List.mem_of_find?_eq_some hfind)
    rwa [← hname]
  · intro hmem
    cases hget : headers.get? name with
    | none =>
        have hnone := List.find?_eq_none.mp (Option.map_eq_none_iff.mp hget)
        exact absurd (decide_eq_true rfl) (hnone _ (List.mem_reverse.mpr hmem))
    | some other =>
        obtain ⟨field, hfind, rfl⟩ := Option.map_eq_some_iff.mp hget
        have hname : field.1 = name := by simpa using List.find?_some hfind
        have hother := List.mem_reverse.mp (List.mem_of_find?_eq_some hfind)
        have heq := List.inj_on_of_nodup_map h hother hmem hname
        rw [heq]

theorem mem_lowered : (name, value) ∈ headers.lowered ↔
    ∃ field ∈ headers, lower field.1 = name ∧ field.2 = value := by
  simp [Fields.lowered]

/-- What the dictionary of the lowered headers gives is what the headers carry. -/
theorem present_lowered_iff (h : headers.DistinctNames) :
    headers.lowered.present name = some value ↔ headers.Carries name value := by
  unfold present Carries
  rw [Option.filter_eq_some_iff, get?_eq_some_iff h.lowered, mem_lowered, decide_eq_true_iff]

theorem present_lowered_eq_none (h : headers.DistinctNames) :
    headers.lowered.present name = none ↔ ∀ value, ¬ headers.Carries name value := by
  rw [Option.eq_none_iff_forall_ne_some]
  exact forall_congr' fun value => not_congr (present_lowered_iff h)

theorem firstPresent_lowered_iff (h : headers.DistinctNames) :
    headers.lowered.firstPresent names = some value ↔ headers.CarriesFirst names value := by
  unfold firstPresent CarriesFirst
  rw [List.findSome?_eq_some_iff]
  simp only [present_lowered_iff h, present_lowered_eq_none h]

theorem carriesAny_iff (h : headers.DistinctNames) :
    headers.CarriesAny names ↔ ∃ name ∈ names, (headers.lowered.present name).isSome = true := by
  unfold CarriesAny
  simp only [Option.isSome_iff_exists, present_lowered_iff h]

theorem firstPresent_lowered_eq_none (h : headers.DistinctNames) :
    headers.lowered.firstPresent names = none ↔ ¬ headers.CarriesAny names := by
  rw [carriesAny_iff h, firstPresent, List.findSome?_eq_none_iff]
  simp [Option.eq_none_iff_forall_ne_some, Option.isSome_iff_exists]

end Fields

/-! ### The client the headers match -/

namespace ClientProvider

variable {provider : ClientProvider} {headers : Fields} {value : String}

/-- The client's `User-Agent` prefix, which is not empty, starts the lowered `User-Agent`. -/
def MatchesAgent (provider : ClientProvider) (headers : Fields) : Prop :=
  provider.uaPrefix ≠ "" ∧
    provider.uaPrefix.toList <+: (lower (userAgent headers.lowered)).toList

/-- The headers are a client's. -/
def Matches (provider : ClientProvider) (headers : Fields) : Prop :=
  headers.CarriesAny provider.sessionHeaders ∨
    (provider.MatchesAgent headers ∧ headers.CarriesAny provider.gatedSessionHeaders)

/-- The first client in order that the headers match. -/
def IsFirst (provider : ClientProvider) (providers : List ClientProvider) (headers : Fields) :
    Prop :=
  ∃ before after, providers = before ++ provider :: after ∧ provider.Matches headers ∧
    ∀ earlier ∈ before, ¬ earlier.Matches headers

theorem gateOpen_iff :
    provider.gateOpen (userAgent headers.lowered) = true ↔ provider.MatchesAgent headers := by
  simp [gateOpen, MatchesAgent]

theorem detects_iff (h : headers.DistinctNames) :
    provider.detects headers.lowered = true ↔ provider.Matches headers := by
  unfold detects Matches
  rw [Bool.or_eq_true_iff, Bool.and_eq_true_iff, List.any_eq_true, List.any_eq_true,
    gateOpen_iff, Fields.carriesAny_iff h, Fields.carriesAny_iff h]

theorem isFirst_iff {providers : List ClientProvider} (h : headers.DistinctNames) :
    detectClient headers.lowered providers = some provider ↔
      provider.IsFirst providers headers := by
  unfold detectClient IsFirst
  rw [List.find?_eq_some_iff_append]
  simp only [Bool.not_eq_eq_eq_not, Bool.not_true, ← Bool.not_eq_true, detects_iff h]
  constructor
  · intro hfound
    obtain ⟨hmatches, before, after, hsplit, hbefore⟩ := hfound
    exact ⟨before, after, hsplit, hmatches, hbefore⟩
  · intro hfirst
    obtain ⟨before, after, hsplit, hmatches, hbefore⟩ := hfirst
    exact ⟨hmatches, before, after, hsplit, hbefore⟩

theorem detectClient_eq_none_iff {providers : List ClientProvider} (h : headers.DistinctNames) :
    detectClient headers.lowered providers = none ↔
      ∀ provider ∈ providers, ¬ provider.Matches headers := by
  unfold detectClient
  rw [List.find?_eq_none]
  simp only [detects_iff h]

/-- The value of a matching client: a plain header, and else a gated one. -/
theorem sessionHeaderValue_eq (provider : ClientProvider) (headers : Fields) :
    provider.sessionHeaderValue headers =
      (headers.firstPresent provider.sessionHeaders).or
        (headers.firstPresent provider.gatedSessionHeaders) :=
  List.findSome?_append

end ClientProvider

/-! ### Attribution -/

/-- A field of the body yields a value. -/
def Yields (loads : List UInt8 → Except LoadsError Json) (body : List UInt8)
    (dottedPath value : String) : Prop :=
  ∃ data, loads body = .ok data ∧ data.field? dottedPath = some value

/-- What a request's session has to be, whatever `loads` raises. -/
inductive Attributed (loads : List UInt8 → Except LoadsError Json) (request : SessionRequest)
    (bodyFields : List String) (providers : List ClientProvider) (genericHeaders : List String) :
    String × String → Prop
  /-- The first client that matches, by the first of its plain headers. -/
  | plain {provider : ClientProvider} {value : String}
      (first : provider.IsFirst providers request.headers)
      (carried : request.headers.CarriesFirst provider.sessionHeaders value) :
      Attributed loads request bodyFields providers genericHeaders (provider.name, value)
  /-- The first client that matches, by the first of its gated headers. -/
  | gated {provider : ClientProvider} {value : String}
      (first : provider.IsFirst providers request.headers)
      (plainless : ¬ request.headers.CarriesAny provider.sessionHeaders)
      (agent : provider.MatchesAgent request.headers)
      (carried : request.headers.CarriesFirst provider.gatedSessionHeaders value) :
      Attributed loads request bodyFields providers genericHeaders (provider.name, value)
  | generic {value : String}
      (unmatched : ∀ provider ∈ providers, ¬ provider.Matches request.headers)
      (carried : request.headers.CarriesFirst genericHeaders value) :
      Attributed loads request bodyFields providers genericHeaders ("unknown", value)
  /-- The first body field that yields a value. -/
  | body {value : String} {before after : List String} {field : String}
      (unmatched : ∀ provider ∈ providers, ¬ provider.Matches request.headers)
      (ungeneric : ¬ request.headers.CarriesAny genericHeaders)
      (split : bodyFields = before ++ field :: after)
      (yields : Yields loads request.body field value)
      (earlier : ∀ other ∈ before, ∀ value', ¬ Yields loads request.body other value') :
      Attributed loads request bodyFields providers genericHeaders ("unknown", value)
  | fallback
      (unmatched : ∀ provider ∈ providers, ¬ provider.Matches request.headers)
      (ungeneric : ¬ request.headers.CarriesAny genericHeaders)
      (fieldless : ∀ field ∈ bodyFields, ∀ value, ¬ Yields loads request.body field value) :
      Attributed loads request bodyFields providers genericHeaders ("unknown", request.fallback)

namespace SessionRequest

variable {loads : List UInt8 → Except LoadsError Json} {request : SessionRequest}
  {bodyFields : List String} {providers : List ClientProvider} {genericHeaders : List String}

/-- The session a body field yields, were nothing raised. -/
def bodyValue? (loads : List UInt8 → Except LoadsError Json) (request : SessionRequest)
    (dottedPath : String) : Option String :=
  (loads request.body).toOption.bind (fun data => data.field? dottedPath)

theorem bodyValue?_eq_some_iff {dottedPath value : String} :
    request.bodyValue? loads dottedPath = some value ↔
      Yields loads request.body dottedPath value := by
  unfold bodyValue? Yields
  cases loads request.body with
  | ok data => simp [Except.toOption]
  | error error => simp [Except.toOption]

theorem bodyValue?_eq_none_iff {dottedPath : String} :
    request.bodyValue? loads dottedPath = none ↔
      ∀ value, ¬ Yields loads request.body dottedPath value := by
  simp only [Option.eq_none_iff_forall_ne_some, ne_eq, bodyValue?_eq_some_iff]

/-- `loads` raises nothing on the body that is not caught. -/
def Loads (loads : List UInt8 → Except LoadsError Json) (request : SessionRequest) : Prop :=
  ∀ error, loads request.body = .error error → error.isCaught = true

theorem extractBodyField_of_loads (h : request.Loads loads) (dottedPath : String) :
    extractBodyField loads request.body dottedPath = .ok (request.bodyValue? loads dottedPath) := by
  unfold extractBodyField bodyValue?
  cases hloads : loads request.body with
  | ok data => rfl
  | error error =>
      dsimp only
      rw [if_pos (h error hloads)]
      rfl

/-- The loop returns the first value. -/
theorem bodySession_of_loads (h : request.Loads loads) (bodyFields : List String) :
    request.bodySession loads bodyFields =
      .ok (bodyFields.findSome? (request.bodyValue? loads)) := by
  induction bodyFields with
  | nil => rfl
  | cons dotted bodyFields ih =>
      rw [bodySession, extractBodyField_of_loads h, List.findSome?_cons]
      cases request.bodyValue? loads dotted with
      | some value => rfl
      | none => exact ih

/-- What is not caught comes out of the first field. -/
theorem bodySession_of_raises {error : LoadsError} (h : loads request.body = .error error)
    (huncaught : error.isCaught = false) (hfields : bodyFields ≠ []) :
    request.bodySession loads bodyFields = .error error := by
  obtain ⟨dotted, rest, rfl⟩ := List.exists_cons_of_ne_nil hfields
  have hraises : extractBodyField loads request.body dotted = .error error := by
    simp [extractBodyField, h, huncaught]
  rw [bodySession, hraises]

/-- A detected client has the session: nothing after its own headers is looked at. -/
theorem resolveSessionId_of_first {provider : ClientProvider} {value : String}
    (h : request.headers.DistinctNames) (hfirst : provider.IsFirst providers request.headers)
    (hvalue : provider.sessionHeaderValue request.headers.lowered = some value) :
    request.resolveSessionId loads bodyFields providers genericHeaders =
      .ok (provider.name, value) := by
  have hdetect := (ClientProvider.isFirst_iff h).mpr hfirst
  simp [resolveSessionId, hdetect, Upgrade.ownSession, hvalue]

theorem resolveSessionId_of_generic {value : String} (h : request.headers.DistinctNames)
    (hnone : ∀ provider ∈ providers, ¬ provider.Matches request.headers)
    (hcarried : request.headers.CarriesFirst genericHeaders value) :
    request.resolveSessionId loads bodyFields providers genericHeaders =
      .ok ("unknown", value) := by
  have hdetect := (ClientProvider.detectClient_eq_none_iff h).mpr hnone
  have hgeneric := (Fields.firstPresent_lowered_iff h).mpr hcarried
  simp [resolveSessionId, hdetect, Upgrade.genericSession, hgeneric]

/-- Without headers the body is consulted. -/
theorem resolveSessionId_of_headerless (h : request.headers.DistinctNames)
    (hnone : ∀ provider ∈ providers, ¬ provider.Matches request.headers)
    (hungeneric : ¬ request.headers.CarriesAny genericHeaders) :
    request.resolveSessionId loads bodyFields providers genericHeaders =
      (request.bodySession loads bodyFields).map fun found =>
        ("unknown", found.getD request.fallback) := by
  have hdetect := (ClientProvider.detectClient_eq_none_iff h).mpr hnone
  have hgeneric := (Fields.firstPresent_lowered_eq_none h).mpr hungeneric
  simp [resolveSessionId, hdetect, Upgrade.genericSession, hgeneric]

/-- If the body is consulted, `loads` raises nothing on it that is not caught. -/
def Legible (loads : List UInt8 → Except LoadsError Json) (request : SessionRequest)
    (bodyFields : List String) (providers : List ClientProvider) (genericHeaders : List String) :
    Prop :=
  (∀ provider ∈ providers, ¬ provider.Matches request.headers) →
    ¬ request.headers.CarriesAny genericHeaders → bodyFields ≠ [] → request.Loads loads

/-- A body that is consulted and legible gives its first value, and no field no value. -/
theorem resolveSessionId_of_legible (h : request.headers.DistinctNames)
    (hlegible : request.Legible loads bodyFields providers genericHeaders)
    (hnone : ∀ provider ∈ providers, ¬ provider.Matches request.headers)
    (hungeneric : ¬ request.headers.CarriesAny genericHeaders) :
    request.resolveSessionId loads bodyFields providers genericHeaders =
      .ok ("unknown",
        (bodyFields.findSome? (request.bodyValue? loads)).getD request.fallback) := by
  rw [resolveSessionId_of_headerless h hnone hungeneric]
  cases bodyFields with
  | nil => rfl
  | cons dotted bodyFields =>
      rw [bodySession_of_loads (hlegible hnone hungeneric (List.cons_ne_nil dotted bodyFields))]
      rfl

/-- Every attribution is the one that is computed. -/
theorem resolveSessionId_of_attributed {result : String × String}
    (h : request.headers.DistinctNames)
    (hlegible : request.Legible loads bodyFields providers genericHeaders)
    (hresult : Attributed loads request bodyFields providers genericHeaders result) :
    request.resolveSessionId loads bodyFields providers genericHeaders = .ok result := by
  cases hresult with
  | plain hfirst hcarried =>
      refine resolveSessionId_of_first h hfirst ?_
      rw [ClientProvider.sessionHeaderValue_eq, (Fields.firstPresent_lowered_iff h).mpr hcarried]
      rfl
  | gated hfirst hplainless _ hcarried =>
      refine resolveSessionId_of_first h hfirst ?_
      rw [ClientProvider.sessionHeaderValue_eq, (Fields.firstPresent_lowered_eq_none h).mpr
        hplainless, Option.none_or, (Fields.firstPresent_lowered_iff h).mpr hcarried]
  | generic hnone hcarried => exact resolveSessionId_of_generic h hnone hcarried
  | body hnone hungeneric hsplit hyields hearlier =>
      have hfound := List.findSome?_eq_some_iff.mpr ⟨_, _, _, hsplit,
        bodyValue?_eq_some_iff.mpr hyields,
        fun other hother => bodyValue?_eq_none_iff.mpr (hearlier other hother)⟩
      rw [resolveSessionId_of_legible h hlegible hnone hungeneric, hfound]
      rfl
  | fallback hnone hungeneric hfieldless =>
      have hfound := List.findSome?_eq_none_iff.mpr fun field hfield =>
        bodyValue?_eq_none_iff.mpr (hfieldless field hfield)
      rw [resolveSessionId_of_legible h hlegible hnone hungeneric, hfound]
      rfl

/-- A request has an attribution: a client that matches has a header, plain or gated. -/
theorem exists_attributed (loads : List UInt8 → Except LoadsError Json)
    (bodyFields : List String) (providers : List ClientProvider) (genericHeaders : List String)
    (h : request.headers.DistinctNames) :
    ∃ result, Attributed loads request bodyFields providers genericHeaders result := by
  cases hdetect : detectClient request.headers.lowered providers with
  | some provider =>
      have hfirst := (ClientProvider.isFirst_iff h).mp hdetect
      cases hplain : request.headers.lowered.firstPresent provider.sessionHeaders with
      | some value => exact ⟨_, .plain hfirst ((Fields.firstPresent_lowered_iff h).mp hplain)⟩
      | none =>
          have hplainless := (Fields.firstPresent_lowered_eq_none h).mp hplain
          -- so it was the gate that the client was detected by
          obtain ⟨-, -, -, hmatches, -⟩ := id hfirst
          obtain ⟨hagent, hany⟩ := hmatches.resolve_left hplainless
          cases hgated : request.headers.lowered.firstPresent provider.gatedSessionHeaders with
          | some value =>
              exact ⟨_, .gated hfirst hplainless hagent
                ((Fields.firstPresent_lowered_iff h).mp hgated)⟩
          | none => exact absurd hany ((Fields.firstPresent_lowered_eq_none h).mp hgated)
  | none =>
      have hnone := (ClientProvider.detectClient_eq_none_iff h).mp hdetect
      cases hgeneric : request.headers.lowered.firstPresent genericHeaders with
      | some value => exact ⟨_, .generic hnone ((Fields.firstPresent_lowered_iff h).mp hgeneric)⟩
      | none =>
          have hungeneric := (Fields.firstPresent_lowered_eq_none h).mp hgeneric
          cases hbody : bodyFields.findSome? (request.bodyValue? loads) with
          | some value =>
              obtain ⟨before, field, after, hsplit, hyields, hearlier⟩ :=
                List.findSome?_eq_some_iff.mp hbody
              exact ⟨_, .body hnone hungeneric hsplit (bodyValue?_eq_some_iff.mp hyields)
                fun other hother => bodyValue?_eq_none_iff.mp (hearlier other hother)⟩
          | none =>
              have hfieldless := List.findSome?_eq_none_iff.mp hbody
              exact ⟨_, .fallback hnone hungeneric
                fun field hfield => bodyValue?_eq_none_iff.mp (hfieldless field hfield)⟩

end SessionRequest

/-! ### The case of header names -/

/-- The same headers, with their names written in another case. -/
def Fields.Recased (headers headers' : Fields) : Prop :=
  List.Forall₂ (fun field field' => lower field.1 = lower field'.1 ∧ field.2 = field'.2)
    headers headers'

theorem Fields.Recased.lowered_eq {headers headers' : Fields} (h : headers.Recased headers') :
    headers.lowered = headers'.lowered := by
  unfold Fields.lowered
  induction h with
  | nil => rfl
  | cons hfield _ ih => rw [List.map_cons, List.map_cons, ih, hfield.1, hfield.2]

namespace SessionRequest

/-- **The session of a request.** `resolve_session_id` returns what a request is attributed to
exactly when its body is not consulted or `json.loads` raises nothing on it that is not caught.
Header names in another case change nothing. -/
theorem resolveSessionId_iff (loads : List UInt8 → Except LoadsError Json)
    (request : SessionRequest) (bodyFields : List String) (providers : List ClientProvider)
    (genericHeaders : List String) (h : request.headers.DistinctNames) :
    ((∀ result, request.resolveSessionId loads bodyFields providers genericHeaders = .ok result ↔
        Attributed loads request bodyFields providers genericHeaders result) ↔
      request.Legible loads bodyFields providers genericHeaders) ∧
    ∀ headers, request.headers.Recased headers →
      SessionRequest.resolveSessionId loads { request with headers := headers } bodyFields
          providers genericHeaders =
        request.resolveSessionId loads bodyFields providers genericHeaders := by
  obtain ⟨other, hother⟩ := exists_attributed loads bodyFields providers genericHeaders h
  refine ⟨⟨fun hresult hnone hungeneric hfields error herror => ?_, fun hlegible result => ?_⟩,
    fun headers hrecased => ?_⟩
  · by_contra huncaught
    -- the attributed result is returned, but the first field raises
    have hreturned := (hresult other).mpr hother
    rw [resolveSessionId_of_headerless h hnone hungeneric,
      bodySession_of_raises herror (Bool.not_eq_true _ ▸ huncaught) hfields] at hreturned
    cases hreturned
  · refine ⟨fun hresult => ?_, resolveSessionId_of_attributed h hlegible⟩
    rw [resolveSessionId_of_attributed h hlegible hother] at hresult
    rwa [← Except.ok.inj hresult]
  · have hbody : ∀ fields, SessionRequest.bodySession loads
        { request with headers := headers } fields = request.bodySession loads fields := by
      intro fields
      induction fields with
      | nil => rfl
      | cons dotted fields ih => simp only [bodySession, ih]
    simp only [resolveSessionId, fallback, hbody, hrecased.lowered_eq]

/-- A request without a body, with a header that more than one tool sends. -/
def affinityRequest : SessionRequest where
  headers := [("X-Session-Affinity", "s1"), ("User-Agent", "OpenCode/1.2"), ("X-Session-Id", "s2")]
  body := []
  clientHost := some "10.0.0.1"

/-- An interpreter that takes a thousand nested arrays, and finds no document in what is left. -/
def nestingLoads (body : List UInt8) : Except LoadsError Json :=
  if 1000 < (body.takeWhile (· = 91)).length then .error .recursionError else .error .valueError

theorem resolveSessionId_iff_affinityRequest :
    affinityRequest.headers.DistinctNames ∧
    Attributed nestingLoads affinityRequest ["user"]
      [providerFromConfig lower Upgrade.opencodeConfig] ["x-session-id"] ("opencode", "s1") := by
  have hdistinct : affinityRequest.headers.DistinctNames := by decide +kernel
  have hlegible : affinityRequest.Legible nestingLoads ["user"]
      [providerFromConfig lower Upgrade.opencodeConfig] ["x-session-id"] := by
    intro _ _ _ error herror
    obtain rfl : LoadsError.valueError = error := Except.error.inj herror
    rfl
  have hresolve : (affinityRequest.resolveSessionId nestingLoads ["user"]
      [providerFromConfig lower Upgrade.opencodeConfig] ["x-session-id"]).toOption =
      some ("opencode", "s1") := by decide +kernel
  refine ⟨hdistinct, ((resolveSessionId_iff nestingLoads affinityRequest ["user"] _ _
    hdistinct).1.mpr hlegible _).mp ?_⟩
  cases hok : affinityRequest.resolveSessionId nestingLoads ["user"]
      [providerFromConfig lower Upgrade.opencodeConfig] ["x-session-id"] with
  | ok result =>
      rw [hok] at hresolve
      exact congrArg _ (Option.some.inj hresolve)
  | error error =>
      rw [hok] at hresolve
      cases hresolve

/-- A request with nothing but an opening bracket in its body, many times over. -/
def nestedRequest : SessionRequest where
  headers := [("User-Agent", "curl/8.0")]
  body := List.replicate 100000 91
  clientHost := some "10.0.0.1"

/-- A body of brackets is no session but an exception. -/
theorem resolveSessionId_counterexample :
    ¬ ∀ (loads : List UInt8 → Except LoadsError Json) (request : SessionRequest)
      (bodyFields : List String) (providers : List ClientProvider) (genericHeaders : List String),
      request.headers.DistinctNames → ∀ result,
        request.resolveSessionId loads bodyFields providers genericHeaders = .ok result ↔
          Attributed loads request bodyFields providers genericHeaders result := by
  intro hclaim
  have hloads : nestingLoads nestedRequest.body = .error .recursionError := by
    have hdeep : ((List.replicate 100000 (91 : UInt8)).takeWhile (· = 91)).length = 100000 := by
      rw [List.takeWhile_replicate, if_pos (by decide), List.length_replicate]
    have hbody : nestedRequest.body = List.replicate 100000 91 := rfl
    rw [hbody, nestingLoads, hdeep]
    rfl
  have hdistinct : nestedRequest.headers.DistinctNames := by decide +kernel
  have hungeneric : ¬ nestedRequest.headers.CarriesAny ["x-session-id"] := by
    refine (Fields.firstPresent_lowered_eq_none hdistinct).mp ?_
    decide +kernel
  have hattributed : Attributed nestingLoads nestedRequest ["user"] [] ["x-session-id"]
      ("unknown", nestedRequest.fallback) := by
    refine .fallback (fun _ h => absurd h List.not_mem_nil) hungeneric ?_
    rintro field - value ⟨data, hdata, -⟩
    cases hloads.symm.trans hdata
  have hreturned := (hclaim nestingLoads nestedRequest ["user"] [] ["x-session-id"] hdistinct
    _).mpr hattributed
  rw [resolveSessionId_of_headerless hdistinct (fun _ h => absurd h List.not_mem_nil) hungeneric,
    bodySession_of_raises hloads rfl (by decide)] at hreturned
  cases hreturned

end SessionRequest

end Relay
