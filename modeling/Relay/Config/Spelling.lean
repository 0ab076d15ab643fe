import Relay.Config.Routing

/-!
# Relay.Config.Spelling

**Writing a configuration out.** `spelled` writes a topology as a configuration in which every
field is there, the defaults included. Reading it gives the topology back (`build_spelled_iff`), so
that nothing `_build` accepts is lost on the way into the topology, each default passes the check
of its own field, and reading a second time changes nothing.

The exception are service URLs of which nothing but blanks is left without their trailing slashes:
`_build_servers` accepts `/` as a service URL and makes of it the empty string, which it would not
accept.

A helper reads what it has read before when it finds the value it has returned: one lemma for each
helper, with a condition on the default of the field.
-/

namespace Relay.Topology

open Checks

/-! ### Fields that are there -/

/-- A field with the text of a string. -/
@[simp] def textField (key value : String) : RawKey × Raw := (.str key, Raw.ofString value)

/-- A field that may be unset. -/
@[simp] def optionField (key : String) (value : Option String) : RawKey × Raw :=
  (.str key, (value.map Raw.ofString).getD (.other .none))

@[simp] def boolField (key : String) (value : Bool) : RawKey × Raw :=
  (.str key, .other (.bool value))

@[simp] def intField (key : String) (value : Int) : RawKey × Raw := (.str key, .other (.int value))

@[simp] def floatField (key : String) (value : PyFloat) : RawKey × Raw :=
  (.str key, .other (.float value))

@[simp] def textsField (key : String) (values : List String) : RawKey × Raw :=
  (.str key, .list (values.map Raw.ofString))

@[simp] def intsField (key : String) (values : List Int) : RawKey × Raw :=
  (.str key, .list (values.map fun n => .other (.int n)))

@[simp] def sectionField (key : String) (fields : Mapping) : RawKey × Raw :=
  (.str key, .mapping fields)

@[simp] def listField (key : String) (items : List Mapping) : RawKey × Raw :=
  (.str key, .list (items.map fun fields => .mapping fields))

/-- The text of a member of an enumeration. -/
def textOf {α : Type} [DecidableEq α] (allowed : List (String × α)) (a : α) : String :=
  ((allowed.find? (fun member => member.2 = a)).map Prod.fst).getD ""

@[simp] theorem Mapping.get_cons (key' key : String) (value : Raw) (fields : Mapping) :
    Mapping.get ((.str key', value) :: fields) key =
      if key' = key then value else Mapping.get fields key := by
  unfold Mapping.get Mapping.get?
  rw [List.find?_cons]
  by_cases h : key' = key <;> simp [h]

/-! ### Reading again

`fields` has been read before, and `fields'` has what was returned. -/

section Again

variable {host : Host} {fields fields' : Mapping} {key where' : String}

theorem present_of_get {value : Raw} (h : fields.get key = value) (hvalue : value ≠ .other .none) :
    fields.present key = some value := by
  unfold Mapping.present
  rw [h]
  split
  · exact absurd rfl hvalue
  · rfl

theorem getField_present {α : Type} {value : Raw} (h : fields.get key = value)
    (hvalue : value ≠ .other .none) (default : Option α) (read : Raw → Result α) :
    getField fields key where' default read = read value := by
  unfold getField
  rw [present_of_get h hvalue]

/-- A field that was read had a value, or has its default. -/
theorem getField_ok {α : Type} {default : Option α} {read : Raw → Result α} {a : α}
    (h : getField fields key where' default read = .ok a) :
    (∃ value, read value = .ok a) ∨ default = some a := by
  unfold getField at h
  split at h
  · exact Or.inl ⟨_, h⟩
  · exact Or.inr (congrArg some (Except.ok.inj h))
  · exact absurd h (by simp [fail])

theorem ofString_ne_none (text : String) : Raw.ofString text ≠ .other .none := by
  simp [Raw.ofString]

theorem getStr_ok {text : String} (h : getStr fields key where' = .ok text) :
    strip text.toList ≠ [] := by
  rcases getField_ok h with ⟨value, hvalue⟩ | hdefault
  · split at hvalue
    · split at hvalue
      · exact absurd hvalue (by simp [fail])
      · rename_i hstrip
        obtain rfl := Except.ok.inj hvalue
        rwa [String.toList_ofList]
    · exact absurd hvalue (by simp [fail])
  · exact absurd hdefault (by simp)

theorem getStr_of_field {text : String} (h : strip text.toList ≠ [])
    (hfields : fields'.get key = Raw.ofString text) : getStr fields' key where' = .ok text := by
  unfold getStr
  rw [getField_present hfields (ofString_ne_none text)]
  show (if strip text.toList = [] then _ else _) = _
  rw [if_neg h, String.ofList_toList]

theorem getStr_again {text : String} (h : getStr fields key where' = .ok text)
    (hfields : fields'.get key = Raw.ofString text) : getStr fields' key where' = .ok text :=
  getStr_of_field (getStr_ok h) hfields

theorem getStrOpt_again {text : Option String}
    (hfields : fields'.get key = (text.map Raw.ofString).getD (.other .none)) :
    getStrOpt fields' key where' = .ok text := by
  unfold getStrOpt
  cases text with
  | none =>
      have hpresent : fields'.present key = none := by
        unfold Mapping.present
        rw [hfields]
        rfl
      rw [hpresent]
  | some text =>
      rw [present_of_get hfields (ofString_ne_none text)]
      show Except.ok (some (String.ofList text.toList)) = _
      rw [String.ofList_toList]

theorem getStrOr_of_field {default text : String} (h : text ≠ "")
    (hfields : fields'.get key = Raw.ofString text) :
    getStrOr fields' key where' default = .ok text :=
  bind_eq_ok.mpr ⟨some text, getStrOpt_again hfields,
    congrArg Except.ok (by simp [Option.filter_some, h])⟩

/-- A text that stands in for the default is the default. -/
theorem getStrOr_again {default text : String} (h : getStrOr fields key where' default = .ok text)
    (hfields : fields'.get key = Raw.ofString text) :
    getStrOr fields' key where' default = .ok text := by
  unfold getStrOr at h ⊢
  obtain ⟨value, -, hvalue⟩ := bind_eq_ok.mp h
  have htext : (value.filter (· ≠ "")).getD default = text := Except.ok.inj hvalue
  by_cases hempty : text = ""
  · refine bind_eq_ok.mpr ⟨some text, getStrOpt_again hfields, congrArg Except.ok ?_⟩
    rw [hempty] at htext ⊢
    cases hfilter : value.filter (· ≠ "") with
    | none =>
        rw [hfilter] at htext
        exact htext
    | some kept =>
        rw [hfilter] at htext
        obtain ⟨-, hkept⟩ := Option.filter_eq_some_iff.mp hfilter
        exact absurd htext (by simpa using hkept)
  · exact getStrOr_of_field hempty hfields

theorem getBool_again {default flag : Bool} (hfields : fields'.get key = .other (.bool flag)) :
    getBool host fields' key where' default = .ok flag := by
  unfold getBool
  rw [getField_present hfields (by simp)]

theorem getInt_again {default n : Int} {minimum : Option Int}
    (h : getInt host fields key where' default minimum = .ok n)
    (hdefault : ∀ least ∈ minimum, least ≤ default)
    (hfields : fields'.get key = .other (.int n)) :
    getInt host fields' key where' default minimum = .ok n := by
  have hleast : minimum.filter (n < ·) = none := by
    rcases getField_ok h with ⟨value, hvalue⟩ | hn
    · split at hvalue
      · split at hvalue
        · exact absurd hvalue (by simp [fail])
        · rename_i hnone
          obtain rfl := Except.ok.inj hvalue
          exact hnone
      · exact absurd hvalue (by simp [fail])
    · obtain rfl := Option.some.inj hn
      refine Option.filter_eq_none_iff.mpr fun least hmem hlow => ?_
      exact Int.not_lt.mpr (hdefault least hmem) (of_decide_eq_true hlow)
  unfold getInt
  rw [getField_present hfields (by simp)]
  dsimp only
  rw [hleast]

theorem getFloat_again {default : ℚ} {minimum : Option ℚ} {x : PyFloat}
    (h : getFloat host fields key where' default minimum = .ok x)
    (hdefault : ∀ least ∈ minimum, least ≤ default)
    (hfields : fields'.get key = .other (.float x)) :
    getFloat host fields' key where' default minimum = .ok x := by
  have hleast : minimum.filter (fun least => x.below least) = none := by
    rcases getField_ok h with ⟨value, hvalue⟩ | hx
    · split at hvalue
      · exact absurd hvalue (by simp [fail])
      · obtain ⟨x', -, hx'⟩ := bind_eq_ok.mp hvalue
        split at hx'
        · exact absurd hx' (by simp [fail])
        · rename_i hnone
          obtain rfl := Except.ok.inj hx'
          exact hnone
    · obtain rfl := Option.some.inj hx
      refine Option.filter_eq_none_iff.mpr fun least hmem hlow => ?_
      have hlt : default < least := of_decide_eq_true hlow
      exact Rat.not_lt.mpr (hdefault least hmem) hlt
  have htoFloat : toFloat host (.other (.float x)) = some (.ok x) := rfl
  unfold getFloat
  rw [getField_present hfields (by simp)]
  simp only [htoFloat]
  refine bind_eq_ok.mpr ⟨x, rfl, ?_⟩
  rw [hleast]
  rfl

theorem find?_textOf {α : Type} [DecidableEq α] {allowed : List (String × α)} {a : α}
    (ha : a ∈ allowed.map Prod.snd) (hnodup : (allowed.map Prod.fst).Nodup) :
    allowed.find? (fun member => member.1 = textOf allowed a) = some (textOf allowed a, a) := by
  obtain ⟨member, hmember, rfl⟩ := List.mem_map.mp ha
  obtain ⟨found, hfound⟩ := Option.isSome_iff_exists.mp
    (List.find?_isSome.mpr ⟨member, hmember, decide_eq_true rfl⟩ :
      (allowed.find? (fun other => other.2 = member.2)).isSome)
  have htext : textOf allowed member.2 = found.1 := by
    unfold textOf
    rw [hfound]
    rfl
  have hsnd : found.2 = member.2 := by simpa using List.find?_some hfound
  obtain ⟨other, hother⟩ := Option.isSome_iff_exists.mp
    (List.find?_isSome.mpr ⟨found, List.mem_of_find?_eq_some hfound, decide_eq_true rfl⟩ :
      (allowed.find? (fun other => other.1 = found.1)).isSome)
  -- the texts are distinct, so that it is the same member
  have hsame : other = found := List.inj_on_of_nodup_map hnodup
    (List.mem_of_find?_eq_some hother) (List.mem_of_find?_eq_some hfound)
    (by simpa using List.find?_some hother)
  rw [htext, hother, hsame, ← hsnd]

theorem getEnum_again {α : Type} [DecidableEq α] {allowed : List (String × α)} {default : Option α}
    {a : α} (h : getEnum host fields key where' allowed default = .ok a)
    (hdefault : ∀ a ∈ default, a ∈ allowed.map Prod.snd)
    (hnodup : (allowed.map Prod.fst).Nodup)
    (hfields : fields'.get key = Raw.ofString (textOf allowed a)) :
    getEnum host fields' key where' allowed default = .ok a := by
  have ha : a ∈ allowed.map Prod.snd := by
    rcases getField_ok h with ⟨value, hvalue⟩ | ha
    · dsimp only at hvalue
      split at hvalue
      · rename_i member hfound
        obtain rfl := Except.ok.inj hvalue
        split at hfound
        · exact List.mem_map.mpr ⟨member, List.mem_of_find?_eq_some hfound, rfl⟩
        · exact absurd hfound (by simp)
      · exact absurd hvalue (by simp [fail])
    · exact hdefault a ha
  have hfind : allowed.find? (fun member =>
      member.1 = String.ofList (textOf allowed a).toList) = some (textOf allowed a, a) := by
    rw [String.ofList_toList]
    exact find?_textOf ha hnodup
  unfold getEnum
  rw [getField_present hfields (ofString_ne_none _)]
  simp only [Raw.ofString, hfind]

/-! ### Lists of texts -/

theorem mapM_map_some {α β : Type} {f : β → Option α} {g : α → β} {l : List α}
    (h : ∀ a ∈ l, f (g a) = some a) : (l.map g).mapM f = some l := by
  induction l with
  | nil => rfl
  | cons a l ih =>
      rw [List.map_cons, List.mapM_cons, h a List.mem_cons_self,
        ih fun b hb => h b (List.mem_cons_of_mem _ hb)]
      rfl

theorem exists_of_mem_mapM {α β : Type} {f : β → Option α} {l : List β} {as : List α}
    (h : l.mapM f = some as) : ∀ a ∈ as, ∃ b, f b = some a := by
  induction l generalizing as with
  | nil =>
      obtain rfl := Option.some.inj h
      exact fun a ha => absurd ha List.not_mem_nil
  | cons b l ih =>
      rw [List.mapM_cons] at h
      obtain ⟨a, ha, h⟩ := Option.bind_eq_some_iff.mp h
      obtain ⟨as', has', h⟩ := Option.bind_eq_some_iff.mp h
      obtain rfl := Option.some.inj h
      intro c hc
      rcases List.mem_cons.mp hc with rfl | hc
      · exact ⟨b, ha⟩
      · exact ih has' c hc

/-- A text without blanks around it, and not empty. -/
def Neat (text : String) : Prop := strip text.toList = text.toList ∧ text.toList ≠ []

instance (text : String) : Decidable (Neat text) := inferInstanceAs (Decidable (_ ∧ _))

theorem strip_strip (text : List Char) : strip (strip text) = strip text := by
  unfold strip
  generalize hl : text.dropWhile isSpace = l
  have hfirst : l.dropWhile isSpace = l := by rw [← hl, List.dropWhile_idempotent]
  -- what is left begins as `l` does, with no blank
  have hrest : (l.rdropWhile isSpace).dropWhile isSpace = l.rdropWhile isSpace := by
    refine List.dropWhile_eq_self_iff.mpr fun hpos => ?_
    have hbegins : l.rdropWhile isSpace <+: l := List.rdropWhile_prefix isSpace l
    have hhead := List.dropWhile_eq_self_iff.mp hfirst (Nat.lt_of_lt_of_le hpos hbegins.length_le)
    rwa [← hbegins.getElem hpos] at hhead
  rw [hrest, List.rdropWhile_idempotent]

theorem nonEmptyText_neat {raw : Raw} {text : String} (h : nonEmptyText raw = some text) :
    Neat text := by
  unfold nonEmptyText at h
  split at h
  · split at h
    · exact absurd h (by simp)
    · rename_i hne
      obtain rfl := Option.some.inj h
      unfold Neat
      rw [String.toList_ofList]
      exact ⟨strip_strip _, hne⟩
  · exact absurd h (by simp)

theorem nonEmptyText_of_neat {text : String} (h : Neat text) :
    nonEmptyText (Raw.ofString text) = some text := by
  show (if strip text.toList = [] then none else some (String.ofList (strip text.toList))) = _
  rw [h.1, if_neg h.2, String.ofList_toList]

theorem getStrList_neat {default texts : List String}
    (h : getStrList fields key where' default = .ok texts)
    (hdefault : ∀ text ∈ default, Neat text) : ∀ text ∈ texts, Neat text := by
  unfold getStrList at h
  split at h
  · obtain rfl := Except.ok.inj h
    exact hdefault
  · split at h
    · rename_i items texts' hmap
      obtain rfl := Except.ok.inj h
      intro text htext
      obtain ⟨raw, hraw⟩ := exists_of_mem_mapM hmap text htext
      exact nonEmptyText_neat hraw
    · exact absurd h (by simp [fail])
  · exact absurd h (by simp [fail])

theorem getStrList_of_neat {default texts : List String} (h : ∀ text ∈ texts, Neat text)
    (hfields : fields'.get key = .list (texts.map Raw.ofString)) :
    getStrList fields' key where' default = .ok texts := by
  unfold getStrList
  rw [hfields]
  dsimp only
  rw [mapM_map_some fun text htext => nonEmptyText_of_neat (h text htext)]

theorem getIntList_again {default ns : List Int}
    (hfields : fields'.get key = .list (ns.map fun n => .other (.int n))) :
    getIntList fields' key where' default = .ok ns := by
  unfold getIntList
  rw [hfields]
  have hmap : (ns.map fun n => (.other (.int n) : Raw)).mapM integer = some ns :=
    mapM_map_some fun _ _ => rfl
  dsimp only
  rw [hmap]

end Again

/-! ### The sections written out -/

def ProxyConfig.spelled (proxy : ProxyConfig) : Mapping :=
  [sectionField "store" [textField "path" proxy.store.path,
      intField "retention_days" proxy.store.retentionDays],
    textField "host" proxy.host,
    intField "port" proxy.port,
    textField "unknown_path_policy" (textOf unknownPathPolicies proxy.unknownPathPolicy),
    intField "target_read_timeout" proxy.targetReadTimeout,
    textsField "session_id_headers" proxy.sessionIdHeaders,
    floatField "shutdown_tick" proxy.shutdownTick]

def NoopState.text : NoopState → String
  | .on => "on"
  | .off => "off"

def PowerConfig.spelled : PowerConfig → Mapping
  | .redfish address user password baseUrl systemPath verifySsl =>
      [textField "host" address,
        optionField "base_url" baseUrl,
        textField "user" user,
        textField "password" password,
        textField "system_path" systemPath,
        boolField "verify_ssl" verifySsl]
  | .noop initialState => [textField "initial_state" initialState.text]
  | .awsEc2 region instanceId accessKey secretKey sessionToken profile offAction =>
      [textField "region" region,
        textField "instance_id" instanceId,
        optionField "access_key" accessKey,
        optionField "secret_key" secretKey,
        optionField "session_token" sessionToken,
        optionField "profile" profile,
        textField "off_action" (textOf offActions offAction)]

def ServerConfig.spelled (server : ServerConfig) : Mapping :=
  [textField "name" server.name,
    textField "type" (textOf serverTypes server.type),
    sectionField "power" server.power.spelled,
    textField "service_url" server.serviceUrl,
    floatField "idle_timeout" server.idleTimeout,
    boolField "shutdown_enabled" server.shutdownEnabled,
    boolField "adopt_on_traffic" server.adoptOnTraffic,
    optionField "schedule" server.schedule]

def ReadinessConfig.spelled (readiness : ReadinessConfig) : Mapping :=
  [textField "path" readiness.path,
    textField "method" (textOf readinessMethods readiness.method),
    floatField "interval" readiness.interval,
    floatField "timeout" readiness.timeout,
    intsField "healthy_statuses" readiness.healthyStatuses]

def SessionConfig.spelled (session : SessionConfig) : Mapping :=
  [intField "per_session_requests" session.perSessionRequests,
    textField "request_mode" (textOf requestModes session.requestMode),
    floatField "busy_window" session.busyWindow,
    floatField "expiry" session.expiry,
    boolField "immediate_idle_release" session.immediateIdleRelease]

def EndpointConfig.spelled (endpoint : EndpointConfig) : Mapping :=
  [textField "name" endpoint.name,
    textField "server" endpoint.server,
    textField "path_prefix" endpoint.pathPrefix,
    boolField "catch_all" endpoint.catchAll,
    sectionField "readiness" endpoint.readiness.spelled,
    textField "wait_policy" (textOf waitPolicies endpoint.waitPolicy),
    textField "routing" (textOf routings endpoint.routing),
    intField "concurrency" endpoint.concurrency,
    floatField "queue_timeout" endpoint.queueTimeout,
    sectionField "session" endpoint.session.spelled,
    textsField "session_id_body_fields" endpoint.sessionIdBodyFields]

def MatchConfig.spelled (recognition : MatchConfig) : Mapping :=
  [textField "ua_prefix" recognition.uaPrefix,
    textsField "session_headers" recognition.sessionHeaders,
    textsField "gated_session_headers" recognition.gatedSessionHeaders]

def StatusConfig.spelled (status : StatusConfig) : Mapping :=
  [textField "kind" (textOf statusKinds status.kind),
    intField "port" status.port,
    textField "password" status.password,
    floatField "poll_interval" status.pollInterval,
    textField "status_path" status.statusPath,
    textField "session_path" status.sessionPath,
    textsField "pending_paths" status.pendingPaths]

def ChildrenConfig.spelled (children : ChildrenConfig) : Mapping :=
  [textField "kind" (textOf childrenKinds children.kind), intField "depth" children.depth]

def ClientConfig.spelled (client : ClientConfig) : Mapping :=
  [textField "name" client.name,
    sectionField "match" client.recognition.spelled,
    sectionField "status" client.status.spelled,
    sectionField "children" client.children.spelled]

/-- A topology as a configuration, with every field there. -/
def RelayConfig.spelled (config : RelayConfig) : Mapping :=
  [sectionField "proxy" config.proxy.spelled,
    listField "servers" (config.servers.map ServerConfig.spelled),
    listField "endpoints" (config.endpoints.map EndpointConfig.spelled),
    listField "clients" (config.clients.map ClientConfig.spelled)]

/-! ### Reading the sections again -/

section Sections

variable {host : Host} {raw : Mapping} {where' : String}

/-- What the loader relies on of `str.lower`: it adds no blanks around a text, and has nothing to
do with a text that is in lower case. -/
structure Host.Lowers (host : Host) : Prop where
  neat : ∀ text, Neat text → Neat (host.lower text)
  lower_lower : ∀ text, host.lower (host.lower text) = host.lower text

theorem buildProxy_spelled (hlowers : host.Lowers) {proxy : ProxyConfig}
    (h : buildProxy host raw = .ok proxy) : buildProxy host proxy.spelled = .ok proxy := by
  simp only [buildProxy, bind_eq_ok, pure_eq_ok] at h ⊢
  obtain ⟨store, -, path, hpath, ⟨⟩, hvalid, address, haddress, port, hport, policy, hpolicy,
    timeout, htimeout, headers, hheaders, tick, htick, days, hdays, rfl⟩ := h
  have hneat := getStrList_neat hheaders (by decide +kernel)
  have hlowered : ∀ text ∈ headers.map host.lower, Neat text := by
    intro text htext
    obtain ⟨header, hheader, rfl⟩ := List.mem_map.mp htext
    exact hlowers.neat header (hneat header hheader)
  have hagain : (headers.map host.lower).map host.lower = headers.map host.lower := by
    rw [List.map_map]
    exact List.map_congr_left fun header _ => hlowers.lower_lower header
  refine ⟨_, rfl, _, getStrOr_again hpath (by simp), _, hvalid,
    _, getStrOr_again haddress (by simp [ProxyConfig.spelled]),
    _, getInt_again hport (by simp) (by simp [ProxyConfig.spelled]),
    _, getEnum_again hpolicy (by decide) (by decide) (by simp [ProxyConfig.spelled]),
    _, getInt_again htimeout (by simp) (by simp [ProxyConfig.spelled]),
    _, getStrList_of_neat hlowered (by simp [ProxyConfig.spelled]),
    _, getFloat_again htick (by decide +kernel) (by simp [ProxyConfig.spelled]),
    _, getInt_again hdays (by simp) (by simp), ?_⟩
  rw [hagain]

theorem buildRedfish_spelled {power : PowerConfig} (h : buildRedfish host raw where' = .ok power) :
    buildRedfish host power.spelled where' = .ok power := by
  simp only [buildRedfish, bind_eq_ok, refuse_eq_ok, pure_eq_ok] at h ⊢
  obtain ⟨address, haddress, baseUrl, hbaseUrl, ⟨⟩, hgiven, user, huser, password, hpassword, path,
    hpath, verify, hverify, rfl⟩ := h
  exact ⟨some (address.getD ""), getStrOpt_again (by simp [PowerConfig.spelled]),
    baseUrl, getStrOpt_again (by simp [PowerConfig.spelled]), (), by simp,
    _, getStr_again huser (by simp [PowerConfig.spelled]),
    _, getStr_again hpassword (by simp [PowerConfig.spelled]),
    _, getStrOr_again hpath (by simp [PowerConfig.spelled]),
    _, getBool_again (by simp [PowerConfig.spelled]), rfl⟩

theorem buildNoop_spelled (state : NoopState) :
    buildNoop host (PowerConfig.noop state).spelled where' = .ok (.noop state) := by
  cases state <;> rfl

theorem buildAwsEc2_spelled {power : PowerConfig} (h : buildAwsEc2 host raw where' = .ok power) :
    buildAwsEc2 host power.spelled where' = .ok power := by
  simp only [buildAwsEc2, bind_eq_ok, refuse_eq_ok, pure_eq_ok] at h ⊢
  obtain ⟨accessKey, haccess, secretKey, hsecret, profile, hprofile, ⟨⟩, hgiven, ⟨⟩, hboth, region,
    hregion, instanceId, hinstance, token, htoken, action, haction, rfl⟩ := h
  exact ⟨accessKey, getStrOpt_again (by simp [PowerConfig.spelled]),
    secretKey, getStrOpt_again (by simp [PowerConfig.spelled]),
    profile, getStrOpt_again (by simp [PowerConfig.spelled]), (), hgiven, (), hboth,
    _, getStr_again hregion (by simp [PowerConfig.spelled]),
    _, getStr_again hinstance (by simp [PowerConfig.spelled]),
    _, getStrOpt_again (by simp [PowerConfig.spelled]),
    _, getEnum_again haction (by decide) (by decide) (by simp [PowerConfig.spelled]), rfl⟩

theorem buildPower_spelled {type : ServerType} {power : PowerConfig}
    (h : buildPower host raw type where' = .ok power) :
    buildPower host power.spelled type where' = .ok power := by
  cases type with
  | redfish => exact buildRedfish_spelled h
  | noop =>
      have hnoop : ∃ state, power = .noop state := by
        unfold buildPower buildNoop at h
        dsimp only at h
        split at h
        · exact ⟨_, (Except.ok.inj h).symm⟩
        · exact ⟨_, (Except.ok.inj h).symm⟩
        · split at h
          · exact ⟨_, (Except.ok.inj h).symm⟩
          · split at h
            · exact ⟨_, (Except.ok.inj h).symm⟩
            · exact absurd h (by simp [fail])
        · exact absurd h (by simp [fail])
      obtain ⟨state, rfl⟩ := hnoop
      exact buildNoop_spelled state
  | awsEc2 => exact buildAwsEc2_spelled h

theorem buildReadiness_spelled {readiness : ReadinessConfig}
    (h : buildReadiness host raw where' = .ok readiness) :
    buildReadiness host readiness.spelled where' = .ok readiness := by
  simp only [buildReadiness, bind_eq_ok, pure_eq_ok] at h ⊢
  obtain ⟨path, hpath, method, hmethod, interval, hinterval, timeout, htimeout, statuses, hstatuses,
    rfl⟩ := h
  generalize hrooted : (if startsWith path "/" then path else "/" ++ path) = rooted
  have hstarts : startsWith rooted "/" = true := by
    rw [← hrooted]
    split
    · assumption
    · exact startsWith_iff.mpr (by simp)
  have hne : rooted ≠ "" := by
    rintro rfl
    exact absurd hstarts (by decide)
  refine ⟨rooted, getStrOr_of_field hne (by simp [ReadinessConfig.spelled]),
    _, getEnum_again hmethod (by decide) (by decide) (by simp [ReadinessConfig.spelled]),
    _, getFloat_again hinterval (by decide +kernel) (by simp [ReadinessConfig.spelled]),
    _, getFloat_again htimeout (by decide +kernel) (by simp [ReadinessConfig.spelled]),
    statuses, getIntList_again (by simp [ReadinessConfig.spelled]), ?_⟩
  rw [if_pos hstarts]

theorem buildSession_spelled {session : SessionConfig}
    (h : buildSession host raw where' = .ok session) :
    buildSession host session.spelled where' = .ok session := by
  simp only [buildSession, bind_eq_ok, pure_eq_ok] at h ⊢
  obtain ⟨requests, hrequests, mode, hmode, window, hwindow, expiry, hexpiry, flag, -, rfl⟩ := h
  exact ⟨_, getInt_again hrequests (by simp) (by simp [SessionConfig.spelled]),
    _, getEnum_again hmode (by decide) (by decide) (by simp [SessionConfig.spelled]),
    _, getFloat_again hwindow (by decide) (by simp [SessionConfig.spelled]),
    _, getFloat_again hexpiry (by decide) (by simp [SessionConfig.spelled]),
    _, getBool_again (by simp [SessionConfig.spelled]), rfl⟩

theorem buildMatch_spelled {recognition : MatchConfig}
    (h : buildMatch raw where' = .ok recognition) :
    buildMatch recognition.spelled where' = .ok recognition := by
  simp only [buildMatch, bind_eq_ok, pure_eq_ok] at h ⊢
  obtain ⟨uaPrefix, hua, headers, hheaders, gated, hgated, rfl⟩ := h
  exact ⟨_, getStrOr_again hua (by simp [MatchConfig.spelled]),
    _, getStrList_of_neat (getStrList_neat hheaders (by simp)) (by simp [MatchConfig.spelled]),
    _, getStrList_of_neat (getStrList_neat hgated (by simp)) (by simp [MatchConfig.spelled]), rfl⟩

theorem buildStatus_spelled {status : StatusConfig}
    (h : buildStatus host raw where' = .ok status) :
    buildStatus host status.spelled where' = .ok status := by
  simp only [buildStatus, bind_eq_ok, pure_eq_ok] at h ⊢
  obtain ⟨kind, hkind, paths, hpaths, port, hport, password, hpassword, interval, hinterval,
    statusPath, hstatus, sessionPath, hsession, rfl⟩ := h
  have hneat := getStrList_neat hpaths (by split <;> decide +kernel)
  exact ⟨_, getEnum_again hkind (by decide) (by decide) (by simp [StatusConfig.spelled]),
    _, getStrList_of_neat hneat (by simp [StatusConfig.spelled]),
    _, getInt_again hport (by simp) (by simp [StatusConfig.spelled]),
    _, getStrOr_again hpassword (by simp [StatusConfig.spelled]),
    _, getFloat_again hinterval (by decide +kernel) (by simp [StatusConfig.spelled]),
    _, getStrOr_again hstatus (by simp [StatusConfig.spelled]),
    _, getStrOr_again hsession (by simp [StatusConfig.spelled]), rfl⟩

theorem buildChildren_spelled {children : ChildrenConfig}
    (h : buildChildren host raw where' = .ok children) :
    buildChildren host children.spelled where' = .ok children := by
  simp only [buildChildren, bind_eq_ok, pure_eq_ok] at h ⊢
  obtain ⟨kind, hkind, depth, hdepth, rfl⟩ := h
  exact ⟨_, getEnum_again hkind (by decide) (by decide) (by simp [ChildrenConfig.spelled]),
    _, getInt_again hdepth (by simp) (by simp [ChildrenConfig.spelled]), rfl⟩

/-! ### Reading the loops again -/

/-- The service URL, as it is kept, is one that would be accepted. -/
def ServerConfig.IsLegible (server : ServerConfig) : Prop := strip server.serviceUrl.toList ≠ []

instance (server : ServerConfig) : Decidable server.IsLegible := inferInstanceAs (Decidable (_ ≠ _))

/-- A loop whose iterations each add an item, and add it as well when they find it written out. -/
theorem foldlM_spelled {σ α β : Type} (built : σ → List β) (ok : β → Prop)
    {f : σ → α × Nat → Result σ} {spell : β → α}
    (hstep : ∀ s a i t, f s (a, i) = .ok t → ∃ b, built t = built s ++ [b] ∧
      (ok b → f s (spell b, i) = .ok t))
    {l : List α} {n : Nat} {s t : σ} (h : (l.zipIdx n).foldlM f s = .ok t) :
    ∃ bs, built t = built s ++ bs ∧
      ((∀ b ∈ bs, ok b) → ((bs.map spell).zipIdx n).foldlM f s = .ok t) := by
  induction l generalizing n s with
  | nil =>
      obtain rfl := Except.ok.inj h
      exact ⟨[], (List.append_nil _).symm, fun _ => rfl⟩
  | cons a l ih =>
      rw [List.zipIdx_cons, List.foldlM_cons] at h
      obtain ⟨u, hu, hrest⟩ := bind_eq_ok.mp h
      obtain ⟨b, hbuilt, hagain⟩ := hstep s a n u hu
      obtain ⟨bs, hbs, hrestAgain⟩ := ih hrest
      refine ⟨b :: bs, by rw [hbs, hbuilt, List.append_assoc, List.singleton_append], fun hok => ?_⟩
      rw [List.map_cons, List.zipIdx_cons, List.foldlM_cons]
      exact bind_eq_ok.mpr ⟨u, hagain (hok b List.mem_cons_self),
        hrestAgain fun b' hb' => hok b' (List.mem_cons_of_mem _ hb')⟩

theorem addServer_spelled {acc acc' : Collected ServerConfig} {entry : Raw} {i : Nat}
    (h : addServer host acc (entry, i) = .ok acc') :
    ∃ server, acc'.built = acc.built ++ [server] ∧
      (server.IsLegible → addServer host acc (.mapping server.spelled, i) = .ok acc') := by
  simp only [addServer, bind_eq_ok, refuse_eq_ok, pure_eq_ok] at h
  obtain ⟨fields, -, name, hname, ⟨⟩, hnew, type, htype, powerRaw, -, schedule, hschedule, ⟨⟩,
    hcron, url, hurl, power, hpower, idle, hidle, enabled, henabled, adopt, hadopt, rfl⟩ := h
  refine ⟨_, rfl, fun hlegible => ?_⟩
  have hslash : rstripSlash (rstripSlash url) = rstripSlash url := by
    unfold rstripSlash
    rw [String.toList_ofList, List.rdropWhile_idempotent]
  simp only [addServer, bind_eq_ok, refuse_eq_ok, pure_eq_ok]
  refine ⟨_, rfl, _, getStr_again hname (by simp [ServerConfig.spelled]), (), hnew,
    _, getEnum_again htype (by simp) (by decide) (by simp [ServerConfig.spelled]),
    power.spelled, by simp [ServerConfig.spelled, asSection],
    _, getStrOpt_again (by simp [ServerConfig.spelled]), (), hcron,
    _, getStr_of_field hlegible (by simp [ServerConfig.spelled]),
    _, buildPower_spelled hpower,
    _, getFloat_again hidle (by decide +kernel) (by simp [ServerConfig.spelled]),
    enabled, getBool_again (by simp [ServerConfig.spelled]),
    adopt, getBool_again (by simp [ServerConfig.spelled]), ?_⟩
  rw [hslash]

theorem addEndpoint_spelled {serverNames : List String} {acc acc' : Endpoints} {entry : Raw}
    {i : Nat} (h : addEndpoint host serverNames acc (entry, i) = .ok acc') :
    ∃ endpoint, acc'.built = acc.built ++ [endpoint] ∧
      addEndpoint host serverNames acc (.mapping endpoint.spelled, i) = .ok acc' := by
  simp only [addEndpoint, bind_eq_ok, refuse_eq_ok] at h
  obtain ⟨fields, -, name, hname, ⟨⟩, hnew, server, hserver, ⟨⟩, hknown, pathPrefix, hpath, ⟨⟩,
    hrooted, h⟩ := h
  split at h
  · exact absurd h (by simp [fail])
  · rename_i hunique
    simp only [bind_eq_ok, refuse_eq_ok, pure_eq_ok] at h
    obtain ⟨⟨⟩, hsecond, routing, hrouting, concurrency, hconcurrency, ⟨⟩, hqueued, readinessRaw, -,
      sessionRaw, -, readiness, hreadiness, policy, hpolicy, timeout, htimeout, session, hsession,
      bodyFields, hbodyFields, rfl⟩ := h
    refine ⟨_, rfl, ?_⟩
    simp only [addEndpoint, bind_eq_ok, refuse_eq_ok]
    refine ⟨_, rfl, _, getStr_again hname (by simp [EndpointConfig.spelled]), (), hnew,
      _, getStr_again hserver (by simp [EndpointConfig.spelled]), (), hknown,
      _, getStr_again hpath (by simp [EndpointConfig.spelled]), (), hrooted, ?_⟩
    have hcatch : truthy (Mapping.get (EndpointConfig.spelled
        { name := name, server := server, pathPrefix := pathPrefix,
          catchAll := truthy (fields.get "catch_all"), readiness := readiness,
          waitPolicy := policy, routing := routing, concurrency := concurrency,
          queueTimeout := timeout, session := session,
          sessionIdBodyFields := bodyFields }) "catch_all") =
        truthy (fields.get "catch_all") := by
      simp [EndpointConfig.spelled, truthy]
    rw [hunique]
    simp only [bind_eq_ok, refuse_eq_ok, pure_eq_ok, hcatch]
    exact ⟨(), hsecond, _, getEnum_again hrouting (by decide) (by decide)
        (by simp [EndpointConfig.spelled]),
      _, getInt_again hconcurrency (by simp) (by simp [EndpointConfig.spelled]), (), hqueued,
      readiness.spelled, by simp [EndpointConfig.spelled, asSection],
      session.spelled, by simp [EndpointConfig.spelled, asSection],
      _, buildReadiness_spelled hreadiness,
      _, getEnum_again hpolicy (by decide) (by decide) (by simp [EndpointConfig.spelled]),
      _, getFloat_again htimeout (by simp) (by simp [EndpointConfig.spelled]),
      _, buildSession_spelled hsession,
      _, getStrList_of_neat (getStrList_neat hbodyFields (by simp))
        (by simp [EndpointConfig.spelled]), rfl⟩

theorem addClient_spelled {acc acc' : Collected ClientConfig} {entry : Raw} {i : Nat}
    (h : addClient host acc (entry, i) = .ok acc') :
    ∃ client, acc'.built = acc.built ++ [client] ∧
      addClient host acc (.mapping client.spelled, i) = .ok acc' := by
  simp only [addClient, bind_eq_ok, refuse_eq_ok, pure_eq_ok] at h
  obtain ⟨fields, -, name, hname, ⟨⟩, hnew, matchRaw, -, statusRaw, -, childrenRaw, -, recognition,
    hrecognition, status, hstatus, children, hchildren, rfl⟩ := h
  refine ⟨_, rfl, ?_⟩
  simp only [addClient, bind_eq_ok, refuse_eq_ok, pure_eq_ok]
  exact ⟨_, rfl, _, getStr_again hname (by simp [ClientConfig.spelled]), (), hnew,
    recognition.spelled, by simp [ClientConfig.spelled, asSection],
    status.spelled, by simp [ClientConfig.spelled, asSection],
    children.spelled, by simp [ClientConfig.spelled, asSection],
    _, buildMatch_spelled hrecognition, _, buildStatus_spelled hstatus,
    _, buildChildren_spelled hchildren, rfl⟩

end Sections

variable {host : Host}

theorem buildServers_spelled {raw : List Raw} {servers : List ServerConfig}
    (h : buildServers host raw = .ok servers) (hlegible : ∀ server ∈ servers, server.IsLegible) :
    buildServers host (servers.map fun server => .mapping server.spelled) = .ok servers := by
  obtain ⟨acc, hacc, hbuilt⟩ := bind_eq_ok.mp h
  obtain rfl : acc.built = servers := Except.ok.inj hbuilt
  obtain ⟨bs, hbs, hagain⟩ := foldlM_spelled Collected.built ServerConfig.IsLegible
    (fun _ _ _ _ hok => addServer_spelled hok) hacc
  obtain rfl : acc.built = bs := hbs
  exact bind_eq_ok.mpr ⟨acc, hagain hlegible, rfl⟩

theorem buildEndpoints_spelled {raw : List Raw} {serverNames : List String}
    {endpoints : List EndpointConfig} (h : buildEndpoints host raw serverNames = .ok endpoints) :
    buildEndpoints host (endpoints.map fun endpoint => .mapping endpoint.spelled) serverNames =
      .ok endpoints := by
  obtain ⟨acc, hacc, hbuilt⟩ := bind_eq_ok.mp h
  obtain rfl : acc.built = endpoints := Except.ok.inj hbuilt
  obtain ⟨bs, hbs, hagain⟩ := foldlM_spelled (fun acc => acc.built) (fun _ => True)
    (fun _ _ _ _ hok => by
      obtain ⟨endpoint, hendpoint, hagain⟩ := addEndpoint_spelled hok
      exact ⟨endpoint, hendpoint, fun _ => hagain⟩) hacc
  obtain rfl : acc.built = bs := hbs
  exact bind_eq_ok.mpr ⟨acc, hagain fun _ _ => trivial, rfl⟩

theorem buildClients_spelled {raw : List Raw} {clients : List ClientConfig}
    (h : buildClients host raw = .ok clients) :
    buildClients host (clients.map fun client => .mapping client.spelled) = .ok clients := by
  obtain ⟨acc, hacc, hbuilt⟩ := bind_eq_ok.mp h
  obtain rfl : acc.built = clients := Except.ok.inj hbuilt
  obtain ⟨bs, hbs, hagain⟩ := foldlM_spelled Collected.built (fun _ => True)
    (fun _ _ _ _ hok => by
      obtain ⟨client, hclient, hagain⟩ := addClient_spelled hok
      exact ⟨client, hclient, fun _ => hagain⟩) hacc
  obtain rfl : acc.built = bs := hbs
  exact bind_eq_ok.mpr ⟨acc, hagain fun _ _ => trivial, rfl⟩

theorem build_spelled (hlowers : host.Lowers) {data : Mapping} {config : RelayConfig}
    (h : build host data = .ok config) (hlegible : ∀ server ∈ config.servers, server.IsLegible) :
    build host config.spelled = .ok config := by
  simp only [build, bind_eq_ok, pure_eq_ok] at h ⊢
  obtain ⟨proxyRaw, -, proxy, hproxy, serversRaw, -, servers, hservers, endpointsRaw, -, endpoints,
    hendpoints, clientsRaw, -, clients, hclients, rfl⟩ := h
  exact ⟨proxy.spelled, by simp [RelayConfig.spelled, asSection],
    _, buildProxy_spelled hlowers hproxy,
    _, by simp [RelayConfig.spelled, listSection], _, buildServers_spelled hservers hlegible,
    _, by simp [RelayConfig.spelled, listSection], _, buildEndpoints_spelled hendpoints,
    _, by simp [RelayConfig.spelled, listSection], _, buildClients_spelled hclients, rfl⟩

/-! ### Illegible service URLs -/

theorem getStr_field_ok {fields : Mapping} {key where' text text' : String}
    (h : getStr fields key where' = .ok text') (hfields : fields.get key = Raw.ofString text) :
    strip text.toList ≠ [] := by
  intro hblank
  unfold getStr at h
  rw [getField_present hfields (ofString_ne_none text)] at h
  change (if strip text.toList = [] then _ else _) = _ at h
  rw [if_pos hblank] at h
  exact absurd h (by simp [fail])

theorem legible_of_addServer {server : ServerConfig} {acc acc' : Collected ServerConfig} {i : Nat}
    (h : addServer host acc (.mapping server.spelled, i) = .ok acc') : server.IsLegible := by
  simp only [addServer, bind_eq_ok] at h
  obtain ⟨fields, hfields, _, -, _, -, _, -, _, -, _, -, _, -, url, hurl, -⟩ := h
  obtain rfl := Except.ok.inj hfields
  exact getStr_field_ok hurl (by simp [ServerConfig.spelled])

theorem legible_of_buildServers {servers servers' : List ServerConfig}
    (h : buildServers host (servers.map fun server => .mapping server.spelled) = .ok servers') :
    ∀ server ∈ servers, server.IsLegible := by
  obtain ⟨acc, hacc, -⟩ := bind_eq_ok.mp h
  have hall : ∀ entry ∈ (servers.map fun server => (.mapping server.spelled : Raw)).zipIdx,
      ∃ s t, addServer host s entry = .ok t := by
    refine foldlM_ok (I := fun done _ => ∀ entry ∈ done, ∃ s t, addServer host s entry = .ok t) ?_
      hacc fun _ hnil => absurd hnil List.not_mem_nil
    rintro done s entry t - hdone hok other hother
    rcases List.mem_append.mp hother with hold | hnew
    · exact hdone other hold
    · exact ⟨s, t, List.mem_singleton.mp hnew ▸ hok⟩
  intro server hserver
  obtain ⟨i, hi, hget⟩ := List.mem_iff_getElem.mp hserver
  have hmem : ((.mapping server.spelled : Raw), i) ∈
      (servers.map fun server => (.mapping server.spelled : Raw)).zipIdx := by
    refine List.mem_zipIdx_iff_getElem?.mpr ?_
    rw [List.getElem?_map, List.getElem?_eq_getElem hi, hget]
    rfl
  obtain ⟨s, t, hok⟩ := hall _ hmem
  exact legible_of_addServer hok

/-- **A topology can be written out.** Let `_build` accept a configuration. With every field of
the topology written out, the defaults included, it accepts that too and makes the same topology of
it, exactly when no service URL has become blank with its trailing slashes. -/
theorem build_spelled_iff (hlowers : host.Lowers) {data : Mapping} {config : RelayConfig}
    (h : build host data = .ok config) :
    build host config.spelled = .ok config ↔ ∀ server ∈ config.servers, server.IsLegible := by
  refine ⟨fun hagain => ?_, build_spelled hlowers h⟩
  simp only [build, bind_eq_ok] at hagain
  obtain ⟨_, -, _, -, serversRaw, hraw, servers, hservers, -⟩ := hagain
  have hsection : serversRaw = config.servers.map fun server => .mapping server.spelled := by
    have hspelled : listSection (config.spelled.get "servers") "servers" =
        .ok (config.servers.map fun server => .mapping server.spelled) := by
      simp [RelayConfig.spelled, listSection]
    exact Except.ok.inj (hraw.symm.trans hspelled)
  rw [hsection] at hservers
  exact legible_of_buildServers hservers

/-- A machine whose texts are in lower case. -/
def lowerHost : Host := { bareHost with lower := id }

theorem build_spelled_iff_nestedEndpoints :
    ∃ config, build lowerHost nestedEndpoints = .ok config ∧
      build lowerHost config.spelled = .ok config ∧
      config.servers.map ServerConfig.serviceUrl = ["http://127.0.0.1:8100"] := by
  have hview : (build lowerHost nestedEndpoints).toOption.map (fun config =>
      (decide (∀ s ∈ config.servers, s.IsLegible), config.servers.map ServerConfig.serviceUrl)) =
      some (true, ["http://127.0.0.1:8100"]) := by
    decide +kernel
  obtain ⟨config, hconfig, hview⟩ := Option.map_eq_some_iff.mp hview
  obtain ⟨hlegible, hurls⟩ := Prod.mk.inj hview
  have hbuild : build lowerHost nestedEndpoints = .ok config := by
    cases hok : build lowerHost nestedEndpoints <;> simp_all [Except.toOption]
  have hlowers : lowerHost.Lowers := ⟨fun _ hneat => hneat, fun _ => rfl⟩
  exact ⟨config, hbuild, (build_spelled_iff hlowers hbuild).mpr (of_decide_eq_true hlegible), hurls⟩

end Relay.Topology
