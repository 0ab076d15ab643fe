import Relay.Clients.Attribution
import Mathlib.Data.List.Dedup
import Mathlib.Data.List.Perm.Basic

/-!
# Relay.Transport.Headers

**The headers of a forwarded request** (`forward_request` of `relay/transport/http.py`). Both ways
they go through a `dict`: `dict(request.headers)`, where Starlette has one value for a name, and
`dict(response.headers)`, where httpx joins the values of a name. Neither has a name twice, so that
the headers come through as they are exactly when no name was repeated (`transparentHeaders_iff`).
-/

namespace Relay.Http

open Fields

/-- The names of some headers. -/
def names (headers : Fields) : List String := headers.map Prod.fst

/-- The values of the headers of a name, in order. -/
def valuesOf (headers : Fields) (name : String) : List String :=
  (headers.filter (fun field => field.1 = name)).map Prod.snd

/-! ### Headers as dictionaries -/

/-- Headers become a dictionary with the same names, each of them once, in lower case. -/
structure HasNames (dict : Fields → Fields) : Prop where
  nodup : ∀ headers, (names (dict headers)).Nodup
  mem_iff : ∀ headers name, name ∈ names (dict headers) ↔ name ∈ names headers.lowered

/-- `dict(request.headers)`: a name keeps one of its values. -/
structure KeepsOne (dict : Fields → Fields) : Prop extends HasNames dict where
  mem : ∀ headers, ∀ field ∈ dict headers, field ∈ headers.lowered

/-- `dict(response.headers)`: the values of a name are joined. -/
structure JoinsRepeated (dict : Fields → Fields) : Prop extends HasNames dict where
  joined : ∀ headers, ∀ field ∈ dict headers,
    field.2 = ", ".intercalate (valuesOf headers.lowered field.1)

/-- Entries that come from headers with distinct names, and have all these names, are all of
them. -/
theorem perm_of_names {entries headers : Fields} (hentries : (names entries).Nodup)
    (hheaders : (names headers).Nodup) (hmem : ∀ field ∈ entries, field ∈ headers)
    (hnames : ∀ name ∈ names headers, name ∈ names entries) : entries.Perm headers := by
  refine (List.perm_ext_iff_of_nodup hentries.of_map hheaders.of_map).mpr fun field => ?_
  refine ⟨hmem field, fun hfield => ?_⟩
  obtain ⟨other, hother, hname⟩ := List.mem_map.mp (hnames _ (List.mem_map_of_mem hfield))
  have heq := List.inj_on_of_nodup_map hheaders (hmem other hother) hfield hname
  rwa [← heq]

/-- A name that is not repeated has one value. -/
theorem valuesOf_eq {headers : Fields} (hnodup : (names headers).Nodup) {field : String × String}
    (hfield : field ∈ headers) : valuesOf headers field.1 = [field.2] := by
  unfold valuesOf
  induction headers with
  | nil => exact absurd hfield List.not_mem_nil
  | cons first rest ih =>
      obtain ⟨hfirst, hrest⟩ := List.nodup_cons.mp hnodup
      rcases List.mem_cons.mp hfield with heq | hmem
      · have hnone : rest.filter (fun other => decide (other.1 = field.1)) = [] := by
          refine List.filter_eq_nil_iff.mpr fun other hother hname => hfirst ?_
          rw [← heq, ← of_decide_eq_true hname]
          exact List.mem_map_of_mem hother
        simp [← heq, hnone]
      · have hne : first.1 ≠ field.1 := fun hname =>
          hfirst (hname ▸ List.mem_map_of_mem hmem)
        simpa [hne] using ih hrest hmem

/-! ### The headers of `forward_request` -/

/-- Headers, by lower-case names, without those called `host`. -/
def withoutHost (headers : Fields) : Fields := headers.filter (fun field => field.1 ≠ "host")

/-- The headers that `forward_request` passes on. -/
def passedHeaders (starletteDict : Fields → Fields) (inbound : Fields) : Fields :=
  withoutHost (starletteDict inbound)

/-- The headers of the response that `forward_request` returns. `StreamingResponse` writes names
in lower case, and adds no header to those it is given. -/
def returnedHeaders (httpxDict : Fields → Fields) (upstream : Fields) : Fields :=
  (httpxDict upstream).lowered

/-- The target gets the headers of the request, up to `host`, and the client gets those of the
response: the same fields, as often as they were there. -/
def Transparent (starletteDict httpxDict : Fields → Fields) (inbound upstream : Fields) : Prop :=
  (passedHeaders starletteDict inbound).Perm (withoutHost inbound.lowered) ∧
  (returnedHeaders httpxDict upstream).Perm upstream.lowered

section

variable {starletteDict httpxDict : Fields → Fields} {inbound upstream : Fields}

theorem names_withoutHost (headers : Fields) :
    names (withoutHost headers) = (names headers).filter (fun name => name ≠ "host") := by
  unfold names withoutHost
  rw [List.filter_map]
  rfl

theorem passedHeaders_perm_iff (h : KeepsOne starletteDict) :
    (passedHeaders starletteDict inbound).Perm (withoutHost inbound.lowered) ↔
      (names (withoutHost inbound.lowered)).Nodup := by
  have hpassed : (names (passedHeaders starletteDict inbound)).Nodup := by
    rw [passedHeaders, names_withoutHost]
    exact (h.nodup inbound).filter _
  constructor
  · intro hperm
    exact (hperm.map Prod.fst).nodup_iff.mp hpassed
  · intro hnodup
    refine perm_of_names hpassed hnodup ?_ ?_
    · intro field hfield
      obtain ⟨hmem, hhost⟩ := List.mem_filter.mp hfield
      exact List.mem_filter.mpr ⟨h.mem inbound field hmem, hhost⟩
    · intro name hname
      rw [names_withoutHost] at hname
      rw [passedHeaders, names_withoutHost]
      obtain ⟨hmem, hhost⟩ := List.mem_filter.mp hname
      exact List.mem_filter.mpr ⟨(h.mem_iff inbound name).mpr hmem, hhost⟩

/-- The names of the dictionary are lower-case ones. -/
theorem HasNames.lowered_eq (h : HasNames httpxDict) :
    (httpxDict upstream).lowered = httpxDict upstream := by
  unfold lowered
  refine (List.map_congr_left fun field hfield => ?_).trans (List.map_id _)
  have hname := (h.mem_iff upstream field.1).mp (List.mem_map_of_mem hfield)
  obtain ⟨other, hother, heq⟩ := List.mem_map.mp hname
  obtain ⟨original, -, rfl⟩ := List.mem_map.mp hother
  have hlower : lower field.1 = field.1 := heq ▸ lower_idem original.1
  rw [hlower]
  rfl

theorem returnedHeaders_perm_iff (h : JoinsRepeated httpxDict) :
    (returnedHeaders httpxDict upstream).Perm upstream.lowered ↔ upstream.DistinctNames := by
  rw [returnedHeaders, h.toHasNames.lowered_eq]
  constructor
  · intro hperm
    have hnodup := (hperm.map Prod.fst).nodup_iff.mp (h.nodup upstream)
    rwa [Fields.lowered, List.map_map] at hnodup
  · intro hdistinct
    refine perm_of_names (h.nodup upstream) hdistinct.lowered ?_ fun name hname =>
      (h.mem_iff upstream name).mpr hname
    intro field hfield
    have hname := (h.mem_iff upstream field.1).mp (List.mem_map_of_mem hfield)
    obtain ⟨other, hother, heq⟩ := List.mem_map.mp hname
    -- the values that are joined are one value
    have hjoined := h.joined upstream field hfield
    rw [← heq, valuesOf_eq hdistinct.lowered hother] at hjoined
    rwa [Prod.ext heq.symm hjoined]

/-- **When headers come through.** Exactly when no request header other than `host` is repeated,
and no response header is. -/
theorem transparentHeaders_iff (hstarlette : KeepsOne starletteDict)
    (hhttpx : JoinsRepeated httpxDict) :
    Transparent starletteDict httpxDict inbound upstream ↔
      (names (withoutHost inbound.lowered)).Nodup ∧ upstream.DistinctNames :=
  and_congr (passedHeaders_perm_iff hstarlette) (returnedHeaders_perm_iff hhttpx)

end

/-! ### The dictionaries of Starlette and httpx -/

/-- `dict` of Starlette headers: the first value of a name. -/
def firstValues (headers : Fields) : Fields :=
  (names headers.lowered).dedup.filterMap
    (fun name => headers.lowered.find? (fun field => field.1 = name))

/-- `dict` of httpx headers. -/
def joinedValues (headers : Fields) : Fields :=
  (names headers.lowered).dedup.map
    (fun name => (name, ", ".intercalate (valuesOf headers.lowered name)))

theorem names_firstValues (headers : Fields) :
    names (firstValues headers) = (names headers.lowered).dedup := by
  unfold firstValues
  rw [names, List.map_filterMap]
  refine (List.filterMap_congr fun name hname => ?_).trans List.filterMap_some
  obtain ⟨field, hfield, hfirst⟩ := List.mem_map.mp (List.mem_dedup.mp hname)
  cases hfind : headers.lowered.find? (fun field => decide (field.1 = name)) with
  | none => exact absurd (decide_eq_true hfirst) (List.find?_eq_none.mp hfind field hfield)
  | some found =>
      have hname : found.1 = name := by simpa using List.find?_some hfind
      exact congrArg some hname

theorem keepsOne_firstValues : KeepsOne firstValues where
  nodup := fun headers => names_firstValues headers ▸ List.nodup_dedup _
  mem_iff := fun headers name => by rw [names_firstValues, List.mem_dedup]
  mem := by
    intro headers field hfield
    obtain ⟨name, -, hfind⟩ := List.mem_filterMap.mp hfield
    exact List.mem_of_find?_eq_some hfind

theorem names_joinedValues (headers : Fields) :
    names (joinedValues headers) = (names headers.lowered).dedup := by
  unfold joinedValues names
  rw [List.map_map]
  exact List.map_id _

theorem joinsRepeated_joinedValues : JoinsRepeated joinedValues where
  nodup := fun headers => names_joinedValues headers ▸ List.nodup_dedup _
  mem_iff := fun headers name => by rw [names_joinedValues, List.mem_dedup]
  joined := by
    intro headers field hfield
    obtain ⟨name, -, rfl⟩ := List.mem_map.mp hfield
    rfl

theorem transparentHeaders_iff_single :
    Transparent firstValues joinedValues [("Host", "proxy"), ("Accept", "text/html")]
      [("Content-Type", "text/html"), ("Set-Cookie", "a=1")] :=
  (transparentHeaders_iff keepsOne_firstValues joinsRepeated_joinedValues).mpr (by decide +kernel)

/-- Two cookies become one field, `a=1, b=2`. -/
theorem transparentHeaders_counterexample :
    KeepsOne firstValues ∧ JoinsRepeated joinedValues ∧
      ¬ Transparent firstValues joinedValues [("Host", "proxy")]
        [("Set-Cookie", "a=1"), ("Set-Cookie", "b=2")] := by
  refine ⟨keepsOne_firstValues, joinsRepeated_joinedValues, fun htransparent => ?_⟩
  exact absurd htransparent.2.length_eq (by decide +kernel)

end Relay.Http
