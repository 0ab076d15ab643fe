import Mathlib.Data.List.Basic
import Mathlib.Data.List.Infix

/-!
# Relay.Clients.Identity

**Who a WebSocket belongs to** (`resolve_session_id_ws`, over `detect_client` and
`session_header_value` of `relay/clients.py`).

A client is detected by its headers only, and a detected client always has a header value
(`ClientProvider.sessionHeaderValue_isSome`). So the lookup of its session headers among the
query parameters is never reached (`resolveSessionIdWs_eq`), and a white-glove parameter is as
good as absent. `mirrorsHeaders_iff` says when this makes no difference.
-/

namespace Relay

/-! ### Names and values -/

/-- `c.lower()` on Latin-1, in which header names and values are decoded. -/
def lowerChar (c : Char) : Char :=
  if ('A' ≤ c ∧ c ≤ 'Z') ∨ ('À' ≤ c ∧ c ≤ 'Þ' ∧ c ≠ '×') then Char.ofNat (c.toNat + 32) else c

/-- `str.lower` of what is decoded as Latin-1. -/
def lower (s : String) : String := String.ofList (s.toList.map lowerChar)

theorem lowerChar_idem (c : Char) : lowerChar (lowerChar c) = lowerChar c := by
  by_cases hlatin : c.toNat < 256
  -- within Latin-1 by computation; what lies beyond is left as it is
  · have hall : ∀ n < 256, lowerChar (lowerChar (Char.ofNat n)) = lowerChar (Char.ofNat n) := by
      decide +kernel
    rw [← Char.ofNat_toNat c]
    exact hall _ hlatin
  · have hle : ∀ d : Char, d.toNat < 256 → ¬ c ≤ d := by
      intro d hd hcd
      have hnat : c.toNat ≤ d.toNat := hcd
      omega
    have hsame : lowerChar c = c := by
      refine if_neg ?_
      rintro (⟨-, hz⟩ | ⟨-, hz, -⟩)
      · exact hle _ (by decide) hz
      · exact hle _ (by decide) hz
    rw [hsame, hsame]

@[simp] theorem lower_idem (s : String) : lower (lower s) = lower s := by
  simp [lower, Function.comp_def, lowerChar_idem]

/-- The headers or the query parameters of a connection, in the order they came in. -/
abbrev Fields := List (String × String)

namespace Fields

variable {fields : Fields} {name name' value : String} {names : List String}

/-- The value a dictionary built from the fields has under a name: the last one. -/
def get? (fields : Fields) (name : String) : Option String :=
  (fields.reverse.find? (fun field => field.1 = name)).map Prod.snd

/-- The value under a name, where that is true as a condition: the name is there, and the value
is not empty. -/
def present (fields : Fields) (name : String) : Option String :=
  (fields.get? name).filter (fun value => value ≠ "")

/-- The first name of a list that is present, with its value. -/
def firstPresent (fields : Fields) (names : List String) : Option String :=
  names.findSome? fields.present

/-- `{k.lower(): v for k, v in fields}`. -/
def lowered (fields : Fields) : Fields := fields.map (fun field => (lower field.1, field.2))

theorem get?_snoc_of_ne (h : name ≠ name') :
    get? (fields ++ [(name, value)]) name' = fields.get? name' := by
  simp [get?, h]

theorem get?_eq_none (h : ∀ field ∈ fields, field.1 ≠ name) : fields.get? name = none := by
  have hfind : fields.reverse.find? (fun field => decide (field.1 = name)) = none := by
    simpa using h
  simp [get?, hfind]

theorem present_snoc_self (h : value ≠ "") :
    present (fields ++ [(name, value)]) name = some value := by
  simp [present, get?, h]

theorem present_snoc_of_ne (h : name ≠ name') :
    present (fields ++ [(name, value)]) name' = fields.present name' := by
  rw [present, get?_snoc_of_ne h, present]

theorem present_eq_none (h : ∀ field ∈ fields, field.1 ≠ name) : fields.present name = none := by
  rw [present, get?_eq_none h]
  rfl

theorem firstPresent_eq_none (h : ∀ name ∈ names, fields.present name = none) :
    fields.firstPresent names = none :=
  List.findSome?_eq_none_iff.mpr h

/-- Where one name is present alone, every list that has it finds its value. -/
theorem firstPresent_snoc (hvalue : value ≠ "") (hmem : name ∈ names)
    (h : ∀ name ∈ names, fields.present name = none) :
    firstPresent (fields ++ [(name, value)]) names = some value := by
  unfold firstPresent
  induction names with
  | nil => exact absurd hmem List.not_mem_nil
  | cons name' names ih =>
      rw [List.findSome?_cons]
      by_cases heq : name = name'
      · rw [← heq, present_snoc_self hvalue]
      · rw [present_snoc_of_ne heq, h name' List.mem_cons_self]
        exact ih ((List.mem_cons.mp hmem).resolve_left heq) fun n hn =>
          h n (List.mem_cons_of_mem _ hn)

end Fields

/-! ### White-glove clients -/

/-- `StatusConfig.kind`. -/
inductive StatusKind
  | opencode
  | none
  deriving DecidableEq, Repr

/-- The part of a `ClientConfig` that names the client and says how it is recognised. -/
structure ClientConfig where
  name : String
  uaPrefix : String
  sessionHeaders : List String
  gatedSessionHeaders : List String
  statusKind : StatusKind
  deriving DecidableEq, Repr

/-- `ClientProvider`. -/
structure ClientProvider where
  name : String
  sessionHeaders : List String
  gatedSessionHeaders : List String
  uaPrefix : String

/-- `provider_from_config`. Configured texts are of any script: `strLower` is the whole of
`str.lower`. -/
def providerFromConfig (strLower : String → String) (client : ClientConfig) : ClientProvider where
  name := client.name
  sessionHeaders := client.sessionHeaders.map strLower
  gatedSessionHeaders := client.gatedSessionHeaders.map strLower
  uaPrefix := strLower client.uaPrefix

namespace ClientProvider

/-- `provider.session_headers + provider.gated_session_headers`. -/
def allHeaders (provider : ClientProvider) : List String :=
  provider.sessionHeaders ++ provider.gatedSessionHeaders

/-- The header names are in lower case. -/
def IsLower (provider : ClientProvider) : Prop :=
  ∀ header ∈ provider.allHeaders, lower header = header

/-- A configured provider has its names in lower case: `str.lower` leaves nothing of Latin-1 in
upper case. -/
theorem isLower_of_config {strLower : String → String}
    (hlower : ∀ text, lower (strLower text) = strLower text) (client : ClientConfig) :
    (providerFromConfig strLower client).IsLower := by
  intro header hheader
  rw [allHeaders, providerFromConfig, ← List.map_append] at hheader
  obtain ⟨name, -, rfl⟩ := List.mem_map.mp hheader
  exact hlower name

/-- The gated headers count for a user agent. -/
def gateOpen (provider : ClientProvider) (ua : String) : Bool :=
  decide (provider.uaPrefix ≠ "") && provider.uaPrefix.toList.isPrefixOf (lower ua).toList

end ClientProvider

/-- The `User-Agent` of lowered headers. -/
def userAgent (headers : Fields) : String := (headers.get? "user-agent").getD ""

namespace ClientProvider

/-- The conditions of one turn of the loop in `detect_client`, for lowered headers. -/
def detects (provider : ClientProvider) (headers : Fields) : Bool :=
  provider.sessionHeaders.any (fun header => (headers.present header).isSome) ||
  (provider.gateOpen (userAgent headers) &&
    provider.gatedSessionHeaders.any (fun header => (headers.present header).isSome))

/-- `session_header_value`, for lowered headers. -/
def sessionHeaderValue (provider : ClientProvider) (headers : Fields) : Option String :=
  headers.firstPresent provider.allHeaders

/-- A detected client has a session id. -/
theorem sessionHeaderValue_isSome {provider : ClientProvider} {headers : Fields}
    (h : provider.detects headers = true) :
    (provider.sessionHeaderValue headers).isSome = true := by
  refine List.findSome?_isSome_iff.mpr ?_
  unfold detects at h
  rcases Bool.or_eq_true_iff.mp h with hplain | hgated
  · obtain ⟨header, hmem, hpresent⟩ := List.any_eq_true.mp hplain
    exact ⟨header, List.mem_append_left _ hmem, hpresent⟩
  · obtain ⟨header, hmem, hpresent⟩ := List.any_eq_true.mp (Bool.and_eq_true_iff.mp hgated).2
    exact ⟨header, List.mem_append_right _ hmem, hpresent⟩

end ClientProvider

/-- `detect_client`, for lowered headers: the first match wins. -/
def detectClient (headers : Fields) (providers : List ClientProvider) : Option ClientProvider :=
  providers.find? (fun provider => provider.detects headers)

theorem detectClient_eq_some {headers : Fields} {providers : List ClientProvider}
    {provider : ClientProvider} (h : detectClient headers providers = some provider) :
    provider ∈ providers ∧ provider.detects headers = true := by
  obtain ⟨hdetects, -⟩ := List.find?_eq_some_iff_append.mp h
  exact ⟨List.mem_of_find?_eq_some h, hdetects⟩

/-! ### The session of a WebSocket -/

/-- What `resolve_session_id_ws` reads of a WebSocket. -/
structure Upgrade where
  headers : Fields
  query : Fields
  /-- `websocket.client.host`. -/
  clientHost : Option String
  deriving DecidableEq, Repr

namespace Upgrade

variable (ws : Upgrade)

/-- The id of last resort. -/
def fallback : String :=
  "ua:" ++ userAgent ws.headers.lowered ++ "|ip:" ++ ws.clientHost.getD "unknown"

/-- The client and the session id under one of a provider's own names. -/
def ownSession (fields : Fields) (provider : ClientProvider) : Option (String × String) :=
  (provider.sessionHeaderValue fields).map (fun value => (provider.name, value))

/-- The session id under a generic name. -/
def genericSession (fields : Fields) (genericHeaders : List String) : Option (String × String) :=
  (fields.firstPresent genericHeaders).map (fun value => ("unknown", value))

/-- `resolve_session_id_ws`: the client's name and the session id. -/
def resolveSessionIdWs (providers : List ClientProvider) (genericHeaders : List String) :
    String × String :=
  let lowered := ws.headers.lowered
  let provider := detectClient lowered providers
  ((provider.bind (ownSession lowered)).or
    ((genericSession lowered genericHeaders).or
      ((provider.bind (ownSession ws.query)).or
        (genericSession ws.query genericHeaders)))).getD ("unknown", ws.fallback)

variable {ws : Upgrade} {providers : List ClientProvider} {genericHeaders : List String}
  {header value : String}

/-- The query parameters of a detected client are never looked up. -/
theorem resolveSessionIdWs_eq (ws : Upgrade) (providers : List ClientProvider)
    (genericHeaders : List String) : ws.resolveSessionIdWs providers genericHeaders =
      (((detectClient ws.headers.lowered providers).bind (ownSession ws.headers.lowered)).or
        ((genericSession ws.headers.lowered genericHeaders).or
          (genericSession ws.query genericHeaders))).getD ("unknown", ws.fallback) := by
  unfold resolveSessionIdWs
  dsimp only
  cases hdetect : detectClient ws.headers.lowered providers with
  | none => rfl
  | some provider =>
      obtain ⟨id, hid⟩ := Option.isSome_iff_exists.mp
        (ClientProvider.sessionHeaderValue_isSome (detectClient_eq_some hdetect).2)
      simp [ownSession, hid]

/-! ### A header moved into the query -/

/-- The names that identify a session. -/
def identifying (providers : List ClientProvider) (genericHeaders : List String) : List String :=
  providers.flatMap ClientProvider.allHeaders ++ genericHeaders

/-- The headers of the connection carry none of the names that identify a session. -/
def Bare (ws : Upgrade) (providers : List ClientProvider) (genericHeaders : List String) : Prop :=
  ∀ name ∈ identifying providers genericHeaders, ∀ field ∈ ws.headers.lowered, field.1 ≠ name

instance (ws : Upgrade) (providers : List ClientProvider) (genericHeaders : List String) :
    Decidable (ws.Bare providers genericHeaders) :=
  inferInstanceAs (Decidable (∀ name ∈ _, ∀ field ∈ _, _))

/-- The query has a non-empty parameter named like a session header of a provider: a plain one,
or a gated one while the gate is open. -/
def WhiteGlove (ws : Upgrade) (providers : List ClientProvider) (header value : String) : Prop :=
  ws.query.present header = some value ∧
  ∃ provider ∈ providers, header ∈ provider.sessionHeaders ∨
    (provider.gateOpen (userAgent ws.headers.lowered) = true ∧
      header ∈ provider.gatedSessionHeaders)

/-- The same connection with a parameter moved into a header of that name. -/
def moved (ws : Upgrade) (header value : String) : Upgrade :=
  { ws with
    headers := ws.headers ++ [(header, value)]
    query := ws.query.filter (fun field => field.1 ≠ header) }

/-- The query identifies the connection as headers would. -/
def MirrorsHeaders (ws : Upgrade) (providers : List ClientProvider)
    (genericHeaders : List String) : Prop :=
  (∀ header value, ws.WhiteGlove providers header value →
    ws.resolveSessionIdWs providers genericHeaders =
      (ws.moved header value).resolveSessionIdWs providers genericHeaders) ∧
  ((∀ header value, ¬ ws.WhiteGlove providers header value) →
    ws.resolveSessionIdWs providers genericHeaders =
      ((ws.query.firstPresent genericHeaders).map (fun value => ("unknown", value))).getD
        ("unknown", ws.fallback))

theorem Bare.present (h : ws.Bare providers genericHeaders) {name : String}
    (hname : name ∈ identifying providers genericHeaders) :
    ws.headers.lowered.present name = none :=
  Fields.present_eq_none (h name hname)

theorem mem_identifying {provider : ClientProvider} (hprovider : provider ∈ providers)
    (hheader : header ∈ provider.allHeaders) : header ∈ identifying providers genericHeaders :=
  List.mem_append_left _ (List.mem_flatMap.mpr ⟨provider, hprovider, hheader⟩)

/-- No client is detected. -/
theorem Bare.detectClient_eq_none (h : ws.Bare providers genericHeaders) :
    detectClient ws.headers.lowered providers = none := by
  refine List.find?_eq_none.mpr fun provider hprovider hdetects => ?_
  -- a client that is detected has a header value, and a bare connection has none
  have hvalue := ClientProvider.sessionHeaderValue_isSome hdetects
  rw [ClientProvider.sessionHeaderValue, Fields.firstPresent_eq_none fun name hname =>
    h.present (mem_identifying hprovider hname)] at hvalue
  cases hvalue

/-- Without identifying headers the generic parameters decide. -/
theorem Bare.resolveSessionIdWs_eq (h : ws.Bare providers genericHeaders) :
    ws.resolveSessionIdWs providers genericHeaders =
      ("unknown", (ws.query.firstPresent genericHeaders).getD ws.fallback) := by
  have hgeneric : ws.headers.lowered.firstPresent genericHeaders = none :=
    Fields.firstPresent_eq_none fun name hname => h.present (List.mem_append_right _ hname)
  rw [Upgrade.resolveSessionIdWs_eq, h.detectClient_eq_none, genericSession, hgeneric,
    genericSession]
  cases ws.query.firstPresent genericHeaders <;> rfl

/-- A white-glove parameter is named like a session header of a provider. -/
theorem WhiteGlove.mem_allHeaders (h : ws.WhiteGlove providers header value) :
    ∃ provider ∈ providers, header ∈ provider.allHeaders := by
  obtain ⟨-, provider, hprovider, hheader⟩ := h
  refine ⟨provider, hprovider, ?_⟩
  rcases hheader with hplain | ⟨-, hgated⟩
  · exact List.mem_append_left _ hplain
  · exact List.mem_append_right _ hgated

theorem WhiteGlove.mem_identifying (h : ws.WhiteGlove providers header value)
    (genericHeaders : List String) : header ∈ identifying providers genericHeaders := by
  obtain ⟨provider, hprovider, hheader⟩ := h.mem_allHeaders
  exact Upgrade.mem_identifying hprovider hheader

theorem WhiteGlove.moved_lowered (h : ws.WhiteGlove providers header value)
    (hlower : ∀ provider ∈ providers, provider.IsLower) :
    (ws.moved header value).headers.lowered = ws.headers.lowered ++ [(header, value)] := by
  obtain ⟨provider, hprovider, hheader⟩ := h.mem_allHeaders
  simp [moved, Fields.lowered, hlower provider hprovider header hheader]

theorem WhiteGlove.ne_empty (h : ws.WhiteGlove providers header value) : value ≠ "" :=
  of_decide_eq_true (Option.mem_filter_iff.mp h.1).2

/-- A gate that is open stays open: the parameter is no `User-Agent`. -/
theorem Bare.gateOpen_moved (hbare : ws.Bare providers genericHeaders)
    (hmem : header ∈ identifying providers genericHeaders) {provider : ClientProvider}
    (hopen : provider.gateOpen (userAgent ws.headers.lowered) = true) :
    provider.gateOpen (userAgent (ws.headers.lowered ++ [(header, value)])) = true := by
  have hne : header ≠ "user-agent" := by
    rintro rfl
    -- a bare connection would have no `User-Agent` then, and no gate opens for an empty one
    rw [userAgent, Fields.get?_eq_none (hbare _ hmem)] at hopen
    obtain ⟨hnonempty, hstarts⟩ := Bool.and_eq_true_iff.mp hopen
    have hnil : provider.uaPrefix.toList = [] := by
      simpa [lower] using hstarts
    exact of_decide_eq_true hnonempty (String.toList_eq_nil_iff.mp hnil)
  rwa [userAgent, Fields.get?_snoc_of_ne hne]

/-- As a header, a white-glove parameter is recognised. -/
theorem WhiteGlove.resolve_moved (h : ws.WhiteGlove providers header value)
    (hlower : ∀ provider ∈ providers, provider.IsLower)
    (hbare : ws.Bare providers genericHeaders) :
    ∃ provider, detectClient (ws.moved header value).headers.lowered providers = some provider ∧
      (ws.moved header value).resolveSessionIdWs providers genericHeaders =
        (provider.name, value) := by
  have hmem := h.mem_identifying genericHeaders
  have hpresent : Fields.present (ws.headers.lowered ++ [(header, value)]) header = some value :=
    Fields.present_snoc_self h.ne_empty
  obtain ⟨-, provider, hprovider, hheader⟩ := id h
  have hdetects : provider.detects (ws.headers.lowered ++ [(header, value)]) = true := by
    unfold ClientProvider.detects
    rcases hheader with hplain | ⟨hopen, hgated⟩
    · refine Bool.or_eq_true_iff.mpr (Or.inl (List.any_eq_true.mpr ⟨header, hplain, ?_⟩))
      rw [hpresent]
      rfl
    · refine Bool.or_eq_true_iff.mpr (Or.inr (Bool.and_eq_true_iff.mpr
        ⟨hbare.gateOpen_moved hmem hopen, List.any_eq_true.mpr ⟨header, hgated, ?_⟩⟩))
      rw [hpresent]
      rfl
  rw [Upgrade.resolveSessionIdWs_eq, h.moved_lowered hlower]
  cases hdetect : detectClient (ws.headers.lowered ++ [(header, value)]) providers with
  | none => exact absurd hdetects (List.find?_eq_none.mp hdetect provider hprovider)
  | some first =>
      refine ⟨first, rfl, ?_⟩
      -- the first client that is detected has the header, too: no other is there
      obtain ⟨hfirst, hdetects⟩ := detectClient_eq_some hdetect
      have hnone : ∀ name ∈ first.allHeaders, ws.headers.lowered.present name = none :=
        fun name hname => hbare.present (Upgrade.mem_identifying hfirst hname)
      have hvalue : first.sessionHeaderValue (ws.headers.lowered ++ [(header, value)]) =
          some value := by
        refine Fields.firstPresent_snoc h.ne_empty ?_ hnone
        by_contra hmissing
        have hsome := ClientProvider.sessionHeaderValue_isSome hdetects
        have hall : ∀ name ∈ first.allHeaders,
            Fields.present (ws.headers.lowered ++ [(header, value)]) name = none := by
          intro name hname
          have hne : header ≠ name := fun heq => hmissing (heq.symm ▸ hname)
          rw [Fields.present_snoc_of_ne hne, hnone name hname]
        rw [ClientProvider.sessionHeaderValue, Fields.firstPresent_eq_none hall] at hsome
        cases hsome
      simp [ownSession, hvalue]

/-- Moving a white-glove parameter changes nothing only where the fallback names it, too. -/
theorem WhiteGlove.mirrored_iff (h : ws.WhiteGlove providers header value)
    (hlower : ∀ provider ∈ providers, provider.IsLower)
    (hbare : ws.Bare providers genericHeaders) :
    ws.resolveSessionIdWs providers genericHeaders =
      (ws.moved header value).resolveSessionIdWs providers genericHeaders ↔
    ∃ provider, detectClient (ws.moved header value).headers.lowered providers = some provider ∧
      provider.name = "unknown" ∧
      value = (ws.query.firstPresent genericHeaders).getD ws.fallback := by
  obtain ⟨provider, hdetect, hresolve⟩ := h.resolve_moved hlower hbare
  rw [hbare.resolveSessionIdWs_eq, hresolve]
  constructor
  · intro heq
    obtain ⟨hname, hvalue⟩ := Prod.mk.inj heq
    exact ⟨provider, hdetect, hname.symm, hvalue.symm⟩
  · rintro ⟨first, hfirst, hname, hvalue⟩
    obtain rfl := Option.some.inj (hdetect.symm.trans hfirst)
    rw [hname, hvalue]

/-- The generic parameters of a bare connection count. -/
theorem Bare.mirrors_generic (hbare : ws.Bare providers genericHeaders) :
    ws.resolveSessionIdWs providers genericHeaders =
      ((ws.query.firstPresent genericHeaders).map (fun value => ("unknown", value))).getD
        ("unknown", ws.fallback) := by
  rw [hbare.resolveSessionIdWs_eq]
  cases ws.query.firstPresent genericHeaders <;> rfl

/-- **When the query identifies a WebSocket as headers would.** Of a connection whose headers
name no session, this is so exactly when every white-glove parameter is one of a client called
`unknown`, with the value that the generic parameters or the fallback give. -/
theorem mirrorsHeaders_iff (hlower : ∀ provider ∈ providers, provider.IsLower)
    (hbare : ws.Bare providers genericHeaders) :
    ws.MirrorsHeaders providers genericHeaders ↔
    ∀ header value, ws.WhiteGlove providers header value →
      ∃ provider,
        detectClient (ws.moved header value).headers.lowered providers = some provider ∧
        provider.name = "unknown" ∧
        value = (ws.query.firstPresent genericHeaders).getD ws.fallback := by
  constructor
  · rintro ⟨hmoved, -⟩ header value hparam
    exact (hparam.mirrored_iff hlower hbare).mp (hmoved header value hparam)
  · intro hall
    refine ⟨fun header value hparam => ?_, fun _ => hbare.mirrors_generic⟩
    exact (hparam.mirrored_iff hlower hbare).mpr (hall header value hparam)

/-- Where no client is called `unknown`, the query may have no white-glove parameter. -/
theorem mirrorsHeaders_iff_of_names (hlower : ∀ provider ∈ providers, provider.IsLower)
    (hbare : ws.Bare providers genericHeaders)
    (hnames : ∀ provider ∈ providers, provider.name ≠ "unknown") :
    ws.MirrorsHeaders providers genericHeaders ↔
      ∀ header value, ¬ ws.WhiteGlove providers header value := by
  constructor
  · rintro ⟨hmoved, -⟩ header value hparam
    obtain ⟨provider, hdetect, hname, -⟩ :=
      (hparam.mirrored_iff hlower hbare).mp (hmoved header value hparam)
    exact hnames provider (detectClient_eq_some hdetect).1 hname
  · intro hnone
    exact ⟨fun header value hparam => absurd hparam (hnone header value),
      fun _ => hbare.mirrors_generic⟩

/-- A client that is known by a header of its own. -/
def opencodeConfig : ClientConfig where
  name := "opencode"
  uaPrefix := "opencode/"
  sessionHeaders := ["X-Opencode-Session"]
  gatedSessionHeaders := ["X-Session-Affinity"]
  statusKind := .opencode

/-- A connection with a parameter. -/
def upgradeWith (name value : String) : Upgrade where
  headers := [("User-Agent", "curl/8.0")]
  query := [(name, value)]
  clientHost := some "10.0.0.1"

theorem mirrorsHeaders_iff_upgradeWith :
    (upgradeWith "x-session-id" "s1").MirrorsHeaders [providerFromConfig lower opencodeConfig]
      ["x-session-id"] := by
  have hnone : ∀ name ∈ (providerFromConfig lower opencodeConfig).allHeaders,
      (upgradeWith "x-session-id" "s1").query.present name = none := by
    decide +kernel
  have hlower : ∀ provider ∈ [providerFromConfig lower opencodeConfig], provider.IsLower :=
    List.forall_mem_singleton.mpr (ClientProvider.isLower_of_config lower_idem opencodeConfig)
  refine (mirrorsHeaders_iff hlower (by decide +kernel)).mpr fun header value hparam => ?_
  obtain ⟨hpresent, provider, hprovider, hheader⟩ := hparam
  obtain rfl := List.mem_singleton.mp hprovider
  have hmem : header ∈ (providerFromConfig lower opencodeConfig).allHeaders :=
    List.mem_append.mpr (hheader.imp_right And.right)
  rw [hnone header hmem] at hpresent
  cases hpresent

/-- The parameter is looked up for a client only that the headers have named. -/
theorem mirrorsHeaders_counterexample :
    ¬ ∀ (ws : Upgrade) (providers : List ClientProvider) (genericHeaders : List String),
      (∀ provider ∈ providers, provider.IsLower) → ws.Bare providers genericHeaders →
      ws.MirrorsHeaders providers genericHeaders := by
  intro hclaim
  have hlower : ∀ provider ∈ [providerFromConfig lower opencodeConfig], provider.IsLower :=
    List.forall_mem_singleton.mpr (ClientProvider.isLower_of_config lower_idem opencodeConfig)
  have hparam : (upgradeWith "x-opencode-session" "s1").WhiteGlove
      [providerFromConfig lower opencodeConfig] "x-opencode-session" "s1" := by
    refine ⟨by decide +kernel, _, List.mem_singleton_self _, Or.inl ?_⟩
    decide +kernel
  have hmirrors := (hclaim (upgradeWith "x-opencode-session" "s1")
    [providerFromConfig lower opencodeConfig] [] hlower (by decide +kernel)).1 _ _ hparam
  revert hmirrors
  decide +kernel

end Upgrade

end Relay
