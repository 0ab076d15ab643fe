import Relay.Endpoint.Reports

/-!
# Relay.Endpoint.Staleness

**Whether an idle report is newer than the last response.** The immediate idle rule compares the
stamp of a report with the last response. The status map the report was read from arrived before
that stamp, which is made when the pending lists have arrived too: a response between the two is
younger than the map and older than the stamp.

`Sourced` says that the comparison is right: a report that reads idle, with a stamp after the
last response, comes from a map that arrived after it. It fails only by a merge with a response
in that gap (`MergesFresh`).
-/

namespace Relay

open Runs

namespace EndpointQueue

/-- No report is from after `t`, and one that finds a session idle since its last response comes
from a map that arrived after it. -/
structure Sourced (source : SessionRef → Time) (t : Time) (q : EndpointQueue) : Prop where
  stamped : ∀ s < q.objs.next, (q.objs s).clientStatus ≠ none → (q.objs s).clientStatusAt ≤ t
  idle : ∀ s < q.objs.next, (q.objs s).clientStatus = some .idle →
    (q.objs s).lastRequestAt < (q.objs s).clientStatusAt → (q.objs s).lastRequestAt < source s

namespace Sourced

variable {source : SessionRef → Time} {t t' : Time} {q q' : EndpointQueue}

theorem init (cfg : QueueConfig) : Sourced source t (EndpointQueue.init cfg) where
  stamped := fun _ hs => absurd hs (Nat.not_lt_zero _)
  idle := fun _ hs => absurd hs (Nat.not_lt_zero _)

theorem mono (h : Sourced source t q) (hle : t ≤ t') : Sourced source t' q where
  stamped := fun s hs hreport => (h.stamped s hs hreport).trans hle
  idle := h.idle

/-- A request or response after the report takes the session out of the rule's reach. -/
theorem carried (h : Sourced source t q) (hq : Carried t q q') : Sourced source t q' := by
  have hnew : ∀ s < q'.objs.next, (q'.objs s).clientStatus ≠ none → s < q.objs.next := by
    intro s hs hreport
    by_contra hge
    exact hreport (hq.fresh s (Nat.le_of_not_lt hge) hs)
  constructor
  · intro s hs hreport
    have hold := hnew s hs hreport
    rw [(hq.kept s hold).clientStatus] at hreport
    rw [(hq.kept s hold).clientStatusAt]
    exact h.stamped s hold hreport
  · intro s hs hidle hlast
    have hold := hnew s hs (by rw [hidle]; simp)
    have hkept := hq.kept s hold
    rw [hkept.clientStatus] at hidle
    rw [hkept.clientStatusAt] at hlast
    rcases hkept.last with heq | hlater
    · rw [heq] at hlast ⊢
      exact h.idle s hold hidle hlast
    · have hle := h.stamped s hold (by rw [hidle]; simp)
      exact absurd (hlater.trans_lt (hlast.trans_le hle)) (lt_irrefl t)

/-- The sources after a merge. -/
def mergedSource (q : EndpointQueue) (sessions : List SessionRef) (data : Option StatusMap)
    (pending : Option PendingMap) (receivedAt : Time) (source : SessionRef → Time) :
    SessionRef → Time :=
  fun s => if s ∈ sessions ∧ readsIdle data pending (q.objs s).sessionId then receivedAt
    else source s

/-- The merge of a map that arrived at `receivedAt`. -/
theorem merge (h : Sourced source t q) {sessions : List SessionRef} {data : Option StatusMap}
    {pending : Option PendingMap} {receivedAt reported : Time} (hle : t ≤ reported)
    (hgap : ∀ s ∈ sessions, readsIdle data pending (q.objs s).sessionId = true →
      (q.objs s).lastRequestAt < receivedAt ∨ reported ≤ (q.objs s).lastRequestAt) :
    Sourced (mergedSource q sessions data pending receivedAt source) reported
      (q.mergeReports sessions data pending reported) := by
  have hlater := h.mono hle
  constructor
  · intro s hs hreport
    rw [mergeReports_next] at hs
    rw [mergeReports_objs] at hreport ⊢
    split
    · rename_i hmem
      rw [if_pos hmem] at hreport
      rcases Option.eq_none_or_eq_some (reportOf data pending (q.objs s).sessionId) with hnone |
        ⟨r, hsome⟩
      · rw [Session.report_of_none hnone] at hreport ⊢
        exact hlater.stamped s hs hreport
      · obtain ⟨status, detail⟩ := r
        rw [Session.report_of_some hsome]
    · rename_i hmem
      rw [if_neg hmem] at hreport
      exact hlater.stamped s hs hreport
  · intro s hs hidle hlast
    rw [mergeReports_next] at hs
    rw [mergeReports_objs] at hidle hlast ⊢
    unfold mergedSource
    by_cases hmem : s ∈ sessions
    · rw [if_pos hmem] at hidle hlast ⊢
      rcases Option.eq_none_or_eq_some (reportOf data pending (q.objs s).sessionId) with hnone |
        ⟨r, hsome⟩
      · -- the answers say nothing of the session
        rw [Session.report_of_none hnone] at hidle hlast ⊢
        rw [if_neg (by simp [readsIdle, hnone])]
        exact h.idle s hs hidle hlast
      · obtain ⟨status, detail⟩ := r
        rw [Session.report_of_some hsome] at hidle hlast ⊢
        obtain rfl := Option.some.inj hidle
        have hreads : readsIdle data pending (q.objs s).sessionId = true := by
          simp [readsIdle, hsome]
        rw [if_pos ⟨hmem, hreads⟩]
        exact (hgap s hmem hreads).resolve_right (not_le.mpr hlast)
    · rw [if_neg hmem] at hidle hlast ⊢
      rw [if_neg (fun h => hmem h.1)]
      exact h.idle s hs hidle hlast

end Sourced

end EndpointQueue

/-- The spot is surrendered by the immediate idle rule. -/
def Surrender.ByIdleReport (x : Surrender) : Prop :=
  x.session.client ≠ "unknown" ∧ x.cfg.immediateIdleRelease = true ∧
    x.session.clientStatus = some .idle ∧ x.session.freshClientReport x.now = true ∧
    x.session.lastRequestAt < x.session.clientStatusAt

instance (x : Surrender) : Decidable x.ByIdleReport :=
  inferInstanceAs (Decidable (_ ∧ _ ∧ _ ∧ _ ∧ _))

/-- No response to a session that the merge reads idle falls between the arrival of the status
map and the stamp of the report. -/
def ManagerPhase.MergesFresh (D : Desk) (answer : Answer) : ManagerPhase → Prop
  | .fetchingPending _ poll _ sessions _ data receivedAt =>
      ∀ s ∈ sessions,
        readsIdle data (fetchPending (D.pollerOf poll.machine).pendingKinds answer.pending)
          (D.queue.objs s).sessionId = true →
        (D.queue.objs s).lastRequestAt < receivedAt ∨ answer.now ≤ (D.queue.objs s).lastRequestAt
  | _ => True

instance (D : Desk) (answer : Answer) (phase : ManagerPhase) :
    Decidable (phase.MergesFresh D answer) :=
  match phase with
  | .fetchingPending _ _ _ _ _ _ _ => inferInstanceAs (Decidable (∀ s ∈ _, _ → _ ∨ _))
  | .asleep | .lookingUp _ _ _ _ _ | .fetchingStatuses _ _ _ _ _ | .surrendering _ =>
      inferInstanceAs (Decidable True)

namespace Fleet

open EndpointQueue (Sourced)

variable {F F' : Fleet} {i : Nat} {answer : Answer} {st : Station} {result : Desk × ManagerPhase}

/-- The condition on a step: its merge, if it makes one, finds no response in the gap. -/
def MergesFresh (F : Fleet) (l : Op × Time) : Prop :=
  match l.1 with
  | .resume i answer => ∀ st ∈ F.stations[i]?, st.manager.MergesFresh (F.desk st) answer
  | _ => True

instance (F : Fleet) (l : Op × Time) : Decidable (F.MergesFresh l) :=
  match l with
  | (.resume i _, _) => inferInstanceAs (Decidable (∀ st ∈ F.stations[i]?, _))
  | (.endpoint _ _, _) | (.start _ _, _) => inferInstanceAs (Decidable True)

/-- The merge of a manager keeps the comparison right. -/
theorem ManagerStep.sourced_merged {op : Op} {clock : Time}
    (h : F.ManagerStep i op answer clock st result) (hfresh : F.MergesFresh (op, clock))
    (hst : st.endpoint.queue.Sourced st.source F.clock) :
    ((F.desk st).merged answer st.manager).queue.Sourced (sourceAfter st F.pollers answer)
      answer.now := by
  rcases h.cases with ⟨-, hasleep, -⟩ | ⟨hop, -⟩
  · unfold sourceAfter
    rw [hasleep]
    exact hst.mono h.clock_le_now
  · subst hop
    have hgap := hfresh st h.station
    unfold sourceAfter
    cases hphase : st.manager with
    | fetchingPending pass poll directory sessions rest data receivedAt =>
        rw [hphase] at hgap
        exact hst.merge h.clock_le_now hgap
    | _ => exact hst.mono h.clock_le_now

/-- The comparison is right over the steps of a manager, in its tick too. -/
theorem ManagerStep.sourced {l : Op × Time} (h : F.ManagerStep i l.1 answer l.2 st result)
    (hfresh : F.MergesFresh l) (hst : st.endpoint.queue.Sourced st.source F.clock) :
    (settled st (sourceAfter st F.pollers answer) answer result).endpoint.queue.Sourced
      (sourceAfter st F.pollers answer) answer.now :=
  (h.sourced_merged hfresh hst).carried (h.carried_settled answer.now _)

/-- A spot that a tick surrenders by the immediate idle rule. -/
theorem ManagerStep.surrenders_sourced {l : Op × Time}
    (h : F.ManagerStep i l.1 answer l.2 st result) (hfresh : F.MergesFresh l)
    (horderly : Orderly F.clock st) (hst : st.endpoint.queue.Sourced st.source F.clock) :
    ∀ x ∈ surrendersAfter (sourceAfter st F.pollers answer) answer result, x.ByIdleReport →
      x.session.lastRequestAt < x.source := by
  intro x hx hidle
  unfold surrendersAfter at hx
  split at hx
  · rename_i pass hphase
    obtain ⟨v, hv, rfl⟩ := List.mem_map.mp hx
    have hvisit := (List.mem_filter.mp hv).1
    -- what the tick finds is what the merge has left
    have hsourced := (h.sourced_merged hfresh hst).carried
      (((h.carried answer.now).visits pass.now answer.promoteAt) v hvisit)
    obtain ⟨cfg, hbalanced⟩ := horderly.balanced
    have hsteady := h.cosmetic EndpointQueue.managed_steady.cosmetic hbalanced.steady
    obtain ⟨hsteady, hfiled⟩ := EndpointQueue.managed_steady.visits hsteady pass.now
      answer.promoteAt v hvisit
    exact hsourced.idle v.2.2 (hsteady.filed _ _ hfiled).1 hidle.2.2.1 hidle.2.2.2.2
  · exact absurd hx List.not_mem_nil

/-- **A stale idle report releases no spot, as long as no response falls between a map and its
stamp.** In every run whose merges find no response in that gap, the status map behind a surrender
by the immediate idle rule arrived after the last response of the session. -/
theorem idle_report_of_run {cfgs : List EndpointConfig} {pollers : OrdDict String Poller}
    {clock : Time} {ls : List (Op × Time)}
    (h : Run (Steps step MergesFresh) (init cfgs pollers clock) ls F) :
    ∀ x ∈ F.surrenders, x.ByIdleReport → x.session.lastRequestAt < x.source := by
  have hinv : (∀ st ∈ F.stations, Orderly F.clock st ∧
        st.endpoint.queue.Sourced st.source F.clock) ∧
      ∀ x ∈ F.surrenders, x.ByIdleReport → x.session.lastRequestAt < x.source := by
    refine h.invariant (I := fun F => (∀ st ∈ F.stations, Orderly F.clock st ∧
        st.endpoint.queue.Sourced st.source F.clock) ∧
      ∀ x ∈ F.surrenders, x.ByIdleReport → x.session.lastRequestAt < x.source) ?_ ?_
    · intro F l F' hF hstep
      obtain ⟨hstations, hsurrenders⟩ := hF
      obtain ⟨hstep, hfresh⟩ := hstep
      refine ⟨?_, ?_⟩
      · refine stations_step (J := fun t st => Orderly t st ∧
          st.endpoint.queue.Sourced st.source t) ?_ ?_ ?_ hstep hstations
        · exact fun t t' st hle hst => ⟨hst.1.mono hle, hst.2.mono hle⟩
        · exact fun i op st E _ hendpoint hst =>
            ⟨hst.1.endpoint hendpoint, (hst.2.carried hendpoint.carried).mono hendpoint.clock_le⟩
        · intro i answer st result hmanager hst
          refine ⟨hst.1.manager hmanager _, ?_⟩
          have hsourced := (hmanager.sourced hfresh hst.2).mono
            (hmanager.now_le_stampAt.trans hmanager.stampAt_le)
          rw [settled_source]
          exact hsourced
      · rcases step_cases hstep with ⟨i, op, st, E, -, -, rfl⟩ | ⟨i, answer, st, result, hm, rfl⟩
        · exact hsurrenders
        · intro x hx
          have hst := hstations st (List.mem_of_getElem? hm.station)
          rcases List.mem_append.mp hx with hold | hnew
          · exact hsurrenders x hold
          · exact hm.surrenders_sourced hfresh hst.1 hst.2 x hnew
    · refine ⟨fun st hst => ⟨orderly_init cfgs pollers clock st hst, ?_⟩,
        fun x hx => absurd hx List.not_mem_nil⟩
      obtain ⟨cfg, -, rfl⟩ := List.mem_map.mp hst
      exact Sourced.init _
  exact hinv.2

/-- One endpoint with one spot, which is released on an idle report. -/
def releasingEndpoint : Fleet := init [.queued (.ofArgs 1 1 300 600 false true)] oneClient 0

/-- The request is answered before the status map arrives. -/
def answeredBeforeMap : List (Op × Time) :=
  admission ++ [wakes 0 10, finds 0 "/w" 11, runs 0 0 15, maps 0 .empty 20, lists 0 60]

theorem idle_report_of_run_answeredBeforeMap :
    ∃ F, exec (guarded step MergesFresh) releasingEndpoint answeredBeforeMap = some F ∧
      ∃ x ∈ F.surrenders, x.source = 20 ∧ x.ByIdleReport ∧ x.session.lastRequestAt < 20 := by
  have hview : (exec (guarded step MergesFresh) releasingEndpoint answeredBeforeMap).map
      (fun F => F.surrenders.map (fun x => (x.source, decide x.ByIdleReport))) =
        some [(20, true)] := by decide +kernel
  obtain ⟨F, hexec, hF⟩ := Option.map_eq_some_iff.mp hview
  obtain ⟨x, hx, hmap⟩ := List.mem_map.mp (hF ▸ List.mem_singleton.mpr rfl :
    ((20 : Time), true) ∈ F.surrenders.map _)
  obtain ⟨hsource, hidle⟩ := Prod.mk.inj hmap
  have hlast := idle_report_of_run (run_of_exec_guarded hexec) x hx (of_decide_eq_true hidle)
  exact ⟨F, hexec, x, hx, hsource, of_decide_eq_true hidle, hsource ▸ hlast⟩

/-- The request is answered after the status map has arrived, and before the pending lists. -/
def answeredAfterMap : List (Op × Time) :=
  admission ++ [wakes 0 10, finds 0 "/w" 11, maps 0 .empty 20, runs 0 0 50, lists 0 60]

/-- The map is thirty seconds older than the response, and the spot is released. -/
theorem idle_report_counterexample :
    ∃ F, exec step releasingEndpoint answeredAfterMap = some F ∧
      ∃ x ∈ F.surrenders, x.ByIdleReport ∧ x.source = 20 ∧ x.session.lastRequestAt = 50 ∧
        x.session.clientStatusAt = 60 ∧ ¬ x.session.lastRequestAt < x.source := by
  have hview : (exec step releasingEndpoint answeredAfterMap).map
      (fun F => F.surrenders.map (fun x => (decide x.ByIdleReport, x.source,
        x.session.lastRequestAt, x.session.clientStatusAt))) =
        some [(true, 20, 50, 60)] := by decide +kernel
  obtain ⟨F, hexec, hF⟩ := Option.map_eq_some_iff.mp hview
  obtain ⟨x, hx, hmap⟩ := List.mem_map.mp (hF ▸ List.mem_singleton.mpr rfl :
    (true, (20 : Time), (50 : Time), (60 : Time)) ∈ F.surrenders.map _)
  obtain ⟨hidle, hmap⟩ := Prod.mk.inj hmap
  obtain ⟨hsource, hmap⟩ := Prod.mk.inj hmap
  obtain ⟨hlast, hstamp⟩ := Prod.mk.inj hmap
  refine ⟨F, hexec, x, hx, of_decide_eq_true hidle, hsource, hlast, hstamp, ?_⟩
  rw [hlast, hsource]
  decide +kernel

end Fleet

end Relay
