import Relay.App.Admissions

/-!
# Relay.App.Listing

**The list of unknown clients tells who is there.** The tracker is told of the HTTP requests that
go to the catch-all endpoint because no endpoint has their path, and of no others. So its entry of
a client is about the last requests of that kind from the client: all of them, or all since a
prune found it silent for the expiry of the catch-all endpoint's sessions (`unknown_list_exact`).
-/

namespace Relay

open Runs Tally

/-- What `record` is told of a request, when no endpoint has its path: the client, and the
request. -/
def Asked.unmatched? (tables : Topology.RelayApp) : Asked → Option (ClientKey × UnknownRequest)
  | .http inbound recordAt =>
      match target tables inbound.fullPath with
      | .endpoint e true =>
          some (clientKey inbound.clientIp (userAgent inbound.headers.lowered),
            { method := inbound.method
              path := inbound.fullPath
              targetUrl := e.server.serviceUrl ++ inbound.fullPath
              at' := recordAt })
      | _ => none
  | _ => none

/-- The time of an event of the tracker. -/
def eventTime : Event ClientKey UnknownRequest Time → Time
  | .seen _ request => request.at'
  | .swept at' => at'

namespace App

/-- The expiry by which the tracker is pruned. Without a catch-all endpoint, it never is. -/
def pruneExpiry (tables : Topology.RelayApp) : Option Time :=
  tables.catchAll.bind fun e => e.config.session.expiry.number?

variable {platform : Platform} {tables : Topology.RelayApp} {rows : String → ServerRow}
  {degraded : Bool} {now : Time} {A₀ A A' : App} {op : Op} {ops : List Op} {asked : Asked}
  {e : Topology.EndpointRuntime} {kind : RequestKind}

/-- What the tracker is told of all requests so far, in order. -/
def unmatched (A : App) : List (ClientKey × UnknownRequest) :=
  A.handlers.filterMap fun handler => handler.asked.unmatched? A.tables

/-- The requests without an endpoint of their own that a client has sent. -/
def unmatchedOf (A : App) (k : ClientKey) : List UnknownRequest :=
  A.unmatched.filterMap fun told => if told.1 = k then some told.2 else none

/-! ### What the steps tell the tracker -/

/-- What a step of the app does to the list. -/
inductive Listed (op : Op) (A A' : App) : Prop
  | same (told : A'.unmatched = A.unmatched) (unknown : A'.unknown = A.unknown)
      (trail : A'.trail = A.trail)
  | recorded (inbound : Inbound) (recordAt : Time) (request : UnknownRequest)
      (told : A'.unmatched = A.unmatched ++
        [(clientKey inbound.clientIp (userAgent inbound.headers.lowered), request)])
      (unknown : A'.unknown =
        A.unknown.record inbound.clientIp (userAgent inbound.headers.lowered) request)
      (trail : A'.trail = A.trail ++
        [.seen (clientKey inbound.clientIp (userAgent inbound.headers.lowered)) request])
      (after : A.clock ≤ request.at') (before : request.at' ≤ A'.clock)
  | pruned (at' expiry : Time) (is : op = .prune at') (told : A'.unmatched = A.unmatched)
      (setting : pruneExpiry A.tables = some expiry)
      (unknown : A'.unknown = A.unknown.prune at' expiry)
      (trail : A'.trail = A.trail ++ [.swept at']) (before : at' ≤ A.clock)

theorem unmatched_enter (phase : HandlerPhase) :
    (A.enter asked phase).unmatched = A.unmatched ++ (asked.unmatched? A.tables).toList :=
  filterMap_asked_enter _ phase

theorem unmatched_settle {i : Nat} {handler : Handler} (hi : A.handlers[i]? = some handler)
    (phase : HandlerPhase) : (A.settle i handler phase).unmatched = A.unmatched :=
  filterMap_asked_settle _ hi phase

/-- A handler of which the tracker is not told. -/
theorem Listed.entered {B : App} {phase : HandlerPhase} (hasked : asked.unmatched? A.tables = none)
    (hhandlers : B.handlers = A.handlers) (htables : B.tables = A.tables)
    (hunknown : B.unknown = A.unknown) (htrail : B.trail = A.trail) :
    Listed op A (B.enter asked phase) := by
  refine .same ?_ hunknown htrail
  rw [unmatched_enter, htables, hasked, Option.toList_none, List.append_nil, unmatched, hhandlers,
    htables]
  rfl

theorem proxy_listed {inbound : Inbound} {recordAt now : Time}
    (h : A.proxy platform inbound recordAt now = some A') (hclock : A.clock ≤ recordAt)
    (hnow : recordAt ≤ now) : Listed op A A' := by
  unfold proxy at h
  dsimp only at h
  split at h
  · rename_i htarget
    obtain rfl := Option.some.inj h
    exact .entered (by simp [Asked.unmatched?, htarget]) rfl rfl rfl rfl
  · rename_i htarget
    obtain rfl := Option.some.inj h
    exact .entered (by simp [Asked.unmatched?, htarget]) rfl rfl rfl rfl
  · rename_i e htarget
    obtain ⟨systems, phase, rfl, -⟩ := routeTo_eq h
    refine .recorded inbound recordAt _ ?_ rfl rfl hclock hnow
    rw [unmatched_enter]
    simp [Asked.unmatched?, htarget, at', recordUnknown, unmatched]
  · rename_i e htarget
    obtain ⟨systems, phase, rfl, -⟩ := routeTo_eq h
    exact .entered (by simp [Asked.unmatched?, htarget]) rfl rfl rfl rfl

theorem proxy_frame {inbound : Inbound} {recordAt now : Time}
    (h : A.proxy platform inbound recordAt now = some A') :
    A'.tables = A.tables ∧ A'.clock = now := by
  unfold proxy at h
  dsimp only at h
  split at h
  · obtain rfl := Option.some.inj h
    exact ⟨rfl, rfl⟩
  · obtain rfl := Option.some.inj h
    exact ⟨rfl, rfl⟩
  · obtain ⟨systems, phase, rfl, -⟩ := routeTo_eq h
    exact ⟨rfl, rfl⟩
  · obtain ⟨systems, phase, rfl, -⟩ := routeTo_eq h
    exact ⟨rfl, rfl⟩

/-- The handlers other than `proxy` tell the tracker nothing. -/
theorem entered_listed {B : App} {systems : List System} {phase : HandlerPhase}
    (hB : B = ({ A.at' now with systems := systems } : App).enter asked phase)
    (hasked : asked.unmatched? A.tables = none) (hclock : A.clock ≤ now) :
    Listed op A B ∧ B.tables = A.tables ∧ A.clock ≤ B.clock := by
  subst hB
  exact ⟨.entered hasked rfl rfl rfl rfl, rfl, hclock⟩

theorem step_listed (h : A.step platform op = some A') :
    Listed op A A' ∧ A'.tables = A.tables ∧ A.clock ≤ A'.clock := by
  cases op with
  | http inbound recordAt now =>
      obtain ⟨⟨hclock, hnow⟩, hproxy⟩ := Option.ite_none_right_eq_some.mp h
      obtain ⟨htables, hat⟩ := proxy_frame hproxy
      exact ⟨proxy_listed hproxy hclock hnow, htables, hat ▸ hclock.trans hnow⟩
  | webSocket inbound now =>
      obtain ⟨hclock, hproxy⟩ := Option.ite_none_right_eq_some.mp h
      obtain ⟨systems, phase, hA'⟩ := wsProxy_eq hproxy
      exact entered_listed hA' rfl hclock
  | release body now =>
      obtain ⟨hclock, hrelease⟩ := Option.ite_none_right_eq_some.mp h
      obtain ⟨systems, phase, hA'⟩ := monitorRelease_eq hrelease
      exact entered_listed hA' rfl hclock
  | shutdown body now =>
      obtain ⟨hclock, hshutdown⟩ := Option.ite_none_right_eq_some.mp h
      obtain ⟨systems, phase, hA'⟩ := monitorShutdown_eq hshutdown
      exact entered_listed hA' rfl hclock
  | power body now =>
      obtain ⟨hclock, hpower⟩ := Option.ite_none_right_eq_some.mp h
      obtain ⟨systems, phase, hA'⟩ := monitorPower_eq hpower
      exact entered_listed hA' rfl hclock
  | timeout body =>
      obtain rfl := Option.some.inj h
      unfold monitorTimeout
      split
      · exact ⟨.entered rfl rfl rfl rfl rfl, rfl, le_refl _⟩
      · exact ⟨.entered rfl rfl rfl rfl rfl, rfl, le_refl _⟩
  | resume i outcome body =>
      obtain ⟨hclock, hbind⟩ := Option.ite_none_right_eq_some.mp h
      obtain ⟨handler, hi, hresume⟩ := Option.bind_eq_some_iff.mp hbind
      obtain ⟨systems, phase, rfl, -⟩ := resume_eq hresume
      exact ⟨.same (unmatched_settle hi phase) rfl rfl, rfl, hclock⟩
  | server n op =>
      obtain ⟨now, -, hguard⟩ := Option.bind_eq_some_iff.mp h
      obtain ⟨hclock, hact⟩ := Option.ite_none_right_eq_some.mp hguard
      obtain ⟨systems, rfl⟩ := act_eq hact
      exact ⟨.same rfl rfl rfl, rfl, hclock⟩
  | endpoint p op =>
      cases op with
      | arrive request => exact absurd h (by simp [step])
      | resume i input =>
          obtain ⟨systems, rfl⟩ := act_eq h
          exact ⟨.same rfl rfl rfl, rfl, le_refl _⟩
      | manage op =>
          obtain ⟨systems, rfl⟩ := act_eq h
          exact ⟨.same rfl rfl rfl, rfl, le_refl _⟩
  | prune now =>
      obtain ⟨hbefore, hmap⟩ := Option.ite_none_right_eq_some.mp h
      obtain ⟨expiry, hsetting, rfl⟩ := Option.map_eq_some_iff.mp hmap
      exact ⟨.pruned now expiry rfl rfl hsetting rfl rfl hbefore, rfl, le_refl _⟩

/-! ### The list -/

/-- The tracker, the history, and the requests of the clients agree. -/
structure Tracked (ops : List Op) (A : App) : Prop where
  exact : A.unknown.Exact ((pruneExpiry A.tables).getD 0) A.trail
  told : ∀ k, sightings k A.trail = A.unmatchedOf k
  /-- What was told after an event is not older than the event. -/
  ordered : A.trail.Pairwise fun event later =>
    ∀ k request, later = .seen k request → eventTime event ≤ request.at'
  past : ∀ event ∈ A.trail, eventTime event ≤ A.clock
  swept : ∀ at', .swept at' ∈ A.trail →
    .prune at' ∈ ops ∧ ∃ expiry, pruneExpiry A.tables = some expiry

/-- What is told next is not older than what was told. -/
theorem Tracked.ordered_concat (h : Tracked ops A) {event : Event ClientKey UnknownRequest Time}
    (hevent : ∀ k request, event = .seen k request → A.clock ≤ request.at') :
    (A.trail ++ [event]).Pairwise fun event later =>
      ∀ k request, later = .seen k request → eventTime event ≤ request.at' := by
  refine List.pairwise_append.mpr ⟨h.ordered, List.pairwise_singleton _ _, ?_⟩
  intro before hbefore later hlater k request hseen
  obtain rfl := List.mem_singleton.mp hlater
  exact (h.past before hbefore).trans (hevent k request hseen)

theorem Tracked.past_concat (h : Tracked ops A) {event : Event ClientKey UnknownRequest Time}
    (hclock : A.clock ≤ A'.clock) (hevent : eventTime event ≤ A'.clock) :
    ∀ told ∈ A.trail ++ [event], eventTime told ≤ A'.clock := by
  intro told htold
  rcases List.mem_append.mp htold with hold | hnew
  · exact (h.past told hold).trans hclock
  · exact List.mem_singleton.mp hnew ▸ hevent

theorem Tracked.step (h : Tracked ops A) (hstep : A.step platform op = some A') :
    Tracked (ops ++ [op]) A' := by
  obtain ⟨hlisted, htables, hclock⟩ := step_listed hstep
  have hswept : ∀ at', .swept at' ∈ A.trail → .prune at' ∈ ops ++ [op] ∧
      ∃ expiry, pruneExpiry A'.tables = some expiry := by
    intro at' hat'
    obtain ⟨hop, hexpiry⟩ := h.swept at' hat'
    exact ⟨List.mem_append_left _ hop, htables ▸ hexpiry⟩
  cases hlisted with
  | same htold hunknown htrail =>
      constructor
      · rw [hunknown, htrail, htables]
        exact h.exact
      · intro k
        rw [htrail, unmatchedOf, htold]
        exact h.told k
      · rw [htrail]
        exact h.ordered
      · rw [htrail]
        exact fun event hevent => (h.past event hevent).trans hclock
      · rw [htrail]
        exact hswept
  | recorded inbound recordAt request htold hunknown htrail hafter hbefore =>
      constructor
      · rw [hunknown, htrail, htables]
        exact h.exact.record _ _ _
      · intro k
        rw [htrail, sightings_append, h.told, unmatchedOf, unmatchedOf, htold,
          List.filterMap_append]
        congr 1
      · rw [htrail]
        refine h.ordered_concat fun k request' hsame => ?_
        obtain ⟨-, rfl⟩ := Event.seen.inj hsame
        exact hafter
      · rw [htrail]
        exact h.past_concat hclock hbefore
      · rw [htrail]
        intro at' hat'
        rcases List.mem_append.mp hat' with hold | hnew
        · exact hswept at' hold
        · exact absurd (List.mem_singleton.mp hnew) (by simp)
  | pruned at' expiry hop htold hsetting hunknown htrail hbefore =>
      constructor
      · have hexact := h.exact.prune at'
        rw [hunknown, htrail, htables]
        rw [hsetting, Option.getD_some] at hexact ⊢
        exact hexact
      · intro k
        rw [htrail, sightings_snoc_swept, unmatchedOf, htold]
        exact h.told k
      · rw [htrail]
        exact h.ordered_concat fun k request hsame => absurd hsame (by simp)
      · rw [htrail]
        exact h.past_concat hclock (hbefore.trans hclock)
      · rw [htrail]
        intro at'' hat''
        rcases List.mem_append.mp hat'' with hold | hnew
        · exact hswept at'' hold
        · obtain rfl := Event.swept.inj (List.mem_singleton.mp hnew)
          exact ⟨List.mem_append_right _ (List.mem_singleton.mpr hop.symm), expiry,
            htables ▸ hsetting⟩

theorem listing_of_run (hstart : App.start platform tables rows degraded now = some A₀)
    (hrun : Run (Steps (App.step platform) Any) A₀ ops A) :
    Tracked ops A ∧ A.tables = tables := by
  obtain ⟨-, htables, hempty, hunknown, htrail⟩ := start_eq hstart
  induction hrun with
  | nil =>
      refine ⟨⟨?_, ?_, ?_, ?_, ?_⟩, htables⟩
      · rw [hunknown, htrail]
        exact .init _
      · intro k
        simp [htrail, unmatchedOf, unmatched, hempty]
      · rw [htrail]
        exact .nil
      · rw [htrail]
        exact fun event hevent => absurd hevent List.not_mem_nil
      · rw [htrail]
        exact fun at' hat' => absurd hat' List.not_mem_nil
  | snoc _ hlast ih =>
      obtain ⟨htracked, hsame⟩ := ih
      exact ⟨htracked.step hlast.1, (step_listed hlast.1).2.1.trans hsame⟩

/-- The tracker is told of the requests of a client in the order of their times. -/
theorem Tracked.pairwise_unmatchedOf (h : Tracked ops A) (k : ClientKey) :
    (A.unmatchedOf k).Pairwise fun request later => request.at' ≤ later.at' := by
  rw [← h.told k]
  refine h.ordered.filterMap _ fun event later hordered request hrequest request' hrequest' => ?_
  cases event with
  | seen key what =>
      obtain rfl := Option.some.inj (Option.ite_none_right_eq_some.mp hrequest).2
      cases later with
      | seen key' what' =>
          obtain rfl := Option.some.inj (Option.ite_none_right_eq_some.mp hrequest').2
          exact hordered key' what' rfl
      | swept at' => exact absurd hrequest' (by simp [Event.sighting?])
  | swept at' => exact absurd hrequest (by simp [Event.sighting?])

/-- A prune of the run found the client silent for the expiry, and what is kept was told after
it. -/
theorem Tracked.exists_prune (h : Tracked ops A) {k : ClientKey} {forgotten : List UnknownRequest}
    {last : UnknownRequest}
    (hsplit : forgotten ++
      since (UnknownRequest.stale ((pruneExpiry A.tables).getD 0)) k A.trail =
        sightings k A.trail)
    (hlast : last ∈ forgotten.getLast?) :
    ∃ at' expiry, .prune at' ∈ ops ∧ at' ≤ A.clock ∧ pruneExpiry A.tables = some expiry ∧
      expiry ≤ at' - last.at' ∧
      ∀ first ∈ since (UnknownRequest.stale ((pruneExpiry A.tables).getD 0)) k A.trail,
        at' ≤ first.at' := by
  obtain ⟨before, at', after, htrail, hstale, -, hkept⟩ := exists_sweep hsplit hlast
  obtain ⟨hprune, expiry, hexpiry⟩ := h.swept at' (by simp [htrail])
  have hsilent : (pruneExpiry A.tables).getD 0 ≤ at' - last.at' := of_decide_eq_true hstale
  rw [hexpiry, Option.getD_some] at hsilent
  have hordered := h.ordered
  have hpast := h.past
  rw [htrail] at hordered hpast
  refine ⟨at', expiry, hprune, hpast (.swept at') (by simp), hexpiry, hsilent,
    fun first hfirst => ?_⟩
  rw [← hkept] at hfirst
  obtain ⟨event, hevent, hseen⟩ := List.mem_filterMap.mp hfirst
  have hlater := (List.pairwise_cons.mp (List.pairwise_append.mp hordered).2.1).1 event hevent
  cases event with
  | seen key request =>
      obtain ⟨-, heq⟩ := Option.ite_none_right_eq_some.mp hseen
      obtain rfl := Option.some.inj heq
      exact hlater key request rfl
  | swept at'' => exact absurd hseen (by simp [Event.sighting?])

/-- The last of the forgotten requests is the youngest. -/
theorem Tracked.forgotten_le (h : Tracked ops A) {k : ClientKey}
    {forgotten kept : List UnknownRequest} {last request : UnknownRequest}
    (hsplit : A.unmatchedOf k = forgotten ++ kept) (hlast : last ∈ forgotten.getLast?)
    (hrequest : request ∈ forgotten) : request.at' ≤ last.at' := by
  obtain ⟨older, rfl⟩ := List.getLast?_eq_some_iff.mp hlast
  have hpairwise := h.pairwise_unmatchedOf k
  rw [hsplit] at hpairwise
  rcases List.mem_append.mp hrequest with hold | hsame
  · exact (List.pairwise_append.mp (List.pairwise_append.mp hpairwise).1).2.2 _ hold _ (by simp)
  · rw [List.mem_singleton.mp hsame]

/-- **The list of unknown clients is exact.** However requests, WebSockets, orders, prunes and
everything else interleave: the entry of a client summarises the last of the requests it has sent
that no endpoint has a path for. Between those and the ones before, if there are any, the client
was silent for the expiry, by the reading of a prune of the run; no request of the last `expiry`
seconds is left out, and none at all when there is no catch-all endpoint that prunes. The rows come
latest activity first, one for each entry. -/
theorem unknown_list_exact (hstart : App.start platform tables rows degraded now = some A₀)
    (hrun : Run (Steps (App.step platform) Any) A₀ ops A) :
    (∀ k, ∃ forgotten kept, A.unmatchedOf k = forgotten ++ kept ∧
      A.unknown.entries.get? k = UnknownEntry.summary k kept ∧
      (∀ last ∈ forgotten.getLast?, ∃ at' expiry, .prune at' ∈ ops ∧ at' ≤ A.clock ∧
        pruneExpiry tables = some expiry ∧ expiry ≤ at' - last.at' ∧
        ∀ first ∈ kept, at' ≤ first.at') ∧
      ∀ request ∈ A.unmatchedOf k,
        (∀ expiry, pruneExpiry tables = some expiry → A.clock - request.at' < expiry) →
        request ∈ kept) ∧
    ∀ now,
      (A.unknown.snapshot now).Perm (A.unknown.entries.values.map (UnknownEntry.row now)) ∧
      (A.unknown.snapshot now).Pairwise
        fun row row' => row.lastActivitySecondsAgo ≤ row'.lastActivitySecondsAgo := by
  obtain ⟨htracked, rfl⟩ := listing_of_run hstart hrun
  refine ⟨fun k => ?_, fun now => ⟨A.unknown.perm_snapshot now, A.unknown.pairwise_snapshot now⟩⟩
  obtain ⟨forgotten, hsplit⟩ := since_suffix
    (UnknownRequest.stale ((pruneExpiry A.tables).getD 0)) k A.trail
  have htold := (htracked.told k) ▸ hsplit.symm
  have hgap := fun (last : UnknownRequest) (hlast : last ∈ forgotten.getLast?) =>
    htracked.exists_prune hsplit hlast
  refine ⟨forgotten, _, htold, htracked.exact k, hgap, fun request hrequest hrecent => ?_⟩
  rw [htold] at hrequest
  refine (List.mem_append.mp hrequest).resolve_left fun hforgotten => ?_
  -- the last of the forgotten requests is no older, and was stale
  have hlast := List.getLast?_eq_some_getLast (List.ne_nil_of_mem hforgotten)
  generalize forgotten.getLast (List.ne_nil_of_mem hforgotten) = last at hlast
  obtain ⟨at', expiry, -, hat, hexpiry, hsilent, -⟩ := hgap last hlast
  have hle := htracked.forgotten_le htold hlast hforgotten
  have hyoung := hrecent expiry hexpiry
  linarith

/-- A client without an endpoint of its own comes back after the expiry. -/
def comesBack : List Op :=
  [.http (getOf "favicon.ico") 1 1, .http (getOf "v1/models") 400 400, .prune 400,
    .http (getOf "robots.txt") 500 500]

theorem unknown_list_exact_comesBack :
    ∃ (A : App) (forgotten kept : List UnknownRequest),
      (A.unmatchedOf ("10.0.0.1", "curl")).map UnknownRequest.at' = [1, 500] ∧
      (A.unknown.snapshot 510).map (fun row => (row.path, row.requests)) = [("/robots.txt", 1)] ∧
      A.unmatchedOf ("10.0.0.1", "curl") = forgotten ++ kept ∧
      A.unknown.entries.get? ("10.0.0.1", "curl") =
        UnknownEntry.summary ("10.0.0.1", "curl") kept := by
  have hview : ((App.start barePlatform oneEndpoint (fun _ => {}) false 0).bind fun A₀ =>
      (exec (App.step barePlatform) A₀ comesBack).map fun A =>
        ((A.unmatchedOf ("10.0.0.1", "curl")).map UnknownRequest.at',
          (A.unknown.snapshot 510).map fun row => (row.path, row.requests))) =
      some ([1, 500], [("/robots.txt", 1)]) := by
    decide +kernel
  obtain ⟨A₀, hstart, hmap⟩ := Option.bind_eq_some_iff.mp hview
  obtain ⟨A, hexec, hview⟩ := Option.map_eq_some_iff.mp hmap
  obtain ⟨htimes, hrows⟩ := Prod.mk.inj hview
  obtain ⟨hlist, -⟩ := unknown_list_exact hstart (run_any_of_exec hexec)
  obtain ⟨forgotten, kept, htold, hentry, -, -⟩ := hlist ("10.0.0.1", "curl")
  exact ⟨A, forgotten, kept, htimes, hrows, htold, hentry⟩

end App

end Relay
