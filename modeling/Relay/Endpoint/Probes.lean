import Relay.Library.Runs
import Relay.Server.Degraded

/-!
# Relay.Endpoint.Probes

**Overlapping probes** (`check_readiness` of `relay/endpoints.py`). The readiness loop, the queue
manager and admissions probe an endpoint, and the calls overlap: each awaits the response for as
long as it takes, and its writes after that. The answer that comes last is the one that stays,
whichever probe was started last, and an admission reads the shared flag again after the writes of
its own probe.

A call of `check_readiness` is the one of `Proxy.checkReadiness`, and runs from write to write by
`Proxy.resumed`. `current_iff` says in which runs the flag is nevertheless that of the probe it
should be.
-/

namespace Relay

open Runs

namespace Proxy

variable {P : Proxy}

/-- The answer of a probe, by the status of the response. -/
def answers (P : Proxy) (i : Nat) (status : Option Nat) : Bool :=
  (P.endpoints[i]?).any (fun E => status.any (fun code => E.healthyStatuses.contains code))

/-- `queue.ready` of an endpoint. -/
def ready (P : Proxy) (i : Nat) : Bool := (P.endpoints[i]?).any Readiness.ready

theorem notingReady_endpoints (P : Proxy) (i : Nat) (result : ServerRuntime.Step) :
    (P.notingReady i result).1.endpoints = P.endpoints := by
  unfold notingReady
  dsimp only
  split <;> rfl

/-- After a probe has been answered, the flag is its answer. -/
theorem checkReadiness_ready {i : Nat} (hi : i < P.endpoints.length) (status : Option Nat)
    (wall : Time) :
    (P.checkReadiness i status wall).1.ready i = P.answers i status ∧
      (P.checkReadiness i status wall).1.endpoints.length = P.endpoints.length := by
  obtain ⟨E, hE⟩ : ∃ E, P.endpoints[i]? = some E := ⟨_, List.getElem?_eq_getElem hi⟩
  have hanswers : P.answers i status =
      status.any (fun code => E.healthyStatuses.contains code) := by
    rw [answers, hE, Option.any_some]
  rw [hanswers]
  unfold checkReadiness
  simp only [hE]
  split
  · rename_i hsame
    refine ⟨?_, List.length_set⟩
    rw [ready, List.getElem?_set_self hi, Option.any_some]
    exact hsame.symm
  · split
    · rename_i hok
      unfold ready
      rw [notingReady_endpoints]
      refine ⟨?_, List.length_set⟩
      rw [List.getElem?_set_self hi, Option.any_some]
      exact hok.symm
    · rename_i hok
      refine ⟨?_, List.length_set⟩
      rw [ready, List.getElem?_set_self hi, Option.any_some]
      exact (Bool.eq_false_iff.mpr hok).symm

theorem resumed_endpoints (P : Proxy) (raised : Bool) (task : Task) :
    (P.resumed raised task).1.endpoints = P.endpoints := by
  unfold resumed
  cases task with
  | server phase => rfl
  | noting i phase =>
      dsimp only
      split
      · rfl
      · exact notingReady_endpoints P i _
  | storing i row => rfl
  | ended raised => rfl

end Proxy

/-! ### Calls of `check_readiness` -/

/-- Who probes an endpoint. -/
inductive ProbeSource
  | readinessLoop
  | queueManager
  /-- An admission that has found the queue empty. -/
  | admission
  deriving DecidableEq, Repr

/-- A call of `check_readiness`; `answer` is its result and the write it is at, once the response
has come. -/
structure Probe where
  source : ProbeSource
  answer : Option (Bool × Proxy.Task)
  deriving DecidableEq, Repr

/-- An admission has awaited its probe: the probe's result, the flag that decides, and whether a
probe that started later has been answered in the meantime. -/
structure Decision where
  own : Bool
  ready : Bool
  superseded : Bool
  deriving DecidableEq, Repr

/-- The endpoint of an index, with the probes in the order in which they started, and their indices
in the order in which they were answered. -/
structure Probing where
  proxy : Proxy
  probes : List Probe
  answered : List Nat
  decisions : List Decision

namespace Probing

inductive Op
  | start (source : ProbeSource)
  | answer (k : Nat) (status : Option Nat) (wall : Time)
  | write (k : Nat) (outcome : WriteOutcome)
  /-- What other tasks do to the server of the endpoint. -/
  | serverMoves (server : ServerRuntime)

def init (proxy : Proxy) : Probing where
  proxy := proxy
  probes := []
  answered := []
  decisions := []

variable (i : Nat) (W : Probing)

/-- The result of a probe that has been answered. -/
def resultOf (k : Nat) : Option Bool := (W.probes[k]?).bind (fun probe => probe.answer.map Prod.fst)

/-- A probe that started after the `k`-th one has been answered since that one was. -/
def superseded (k : Nat) : Bool := (W.answered.dropWhile (fun j => j ≠ k)).any (fun j => k < j)

/-- A call of `check_readiness` comes to its next await. An admission whose call has returned
decides at once. -/
def moved (k : Nat) (source : ProbeSource) (own : Bool) (task : Proxy.Task) : Probing :=
  { W with
    probes := W.probes.set k ⟨source, some (own, task)⟩
    decisions :=
      if source = .admission ∧ task = .ended false then
        W.decisions ++ [⟨own, W.proxy.ready i, W.superseded k⟩]
      else W.decisions }

def step : Op → Option Probing
  | .start source => some { W with probes := W.probes ++ [⟨source, none⟩] }
  | .answer k status wall =>
      match W.probes[k]? with
      | some ⟨source, none⟩ =>
          let result := W.proxy.checkReadiness i status wall
          some (moved i { W with proxy := result.1, answered := W.answered ++ [k] } k source
            (W.proxy.answers i status) result.2)
      | _ => none
  | .write k outcome =>
      match W.probes[k]? with
      | some ⟨source, some (own, task)⟩ =>
          match task.write? with
          | none => none
          | some w =>
              let result := (W.proxy.write w outcome).resumed outcome.isRaised task
              some (moved i { W with proxy := result.1 } k source own result.2)
      | _ => none
  | .serverMoves server => some { W with proxy := { W.proxy with server := server } }

/-! ### The flag of the newest probe -/

/-- Unless a probe is in progress, the flag is the result of the one that was started last. -/
def Fresh : Prop :=
  (∀ k < W.probes.length, (W.resultOf k).isSome = true) →
    ∀ k, k + 1 = W.probes.length → W.resultOf k = some (W.proxy.ready i)

/-- Every admission has decided with the result of its own probe, unless a newer one was
answered in the meantime. -/
def Own : Prop :=
  ∀ decision ∈ W.decisions, decision.superseded = false → decision.ready = decision.own

/-- The readiness of the endpoint is not that of an older probe. -/
def Current : Prop := W.Fresh i ∧ W.Own

/-- The step is an admission's last write: `check_readiness` returns after it. -/
def decides (k : Nat) (outcome : WriteOutcome) : Bool :=
  match W.probes[k]? with
  | some ⟨.admission, some (_, task)⟩ =>
      match task.write? with
      | none => false
      | some w =>
          decide (((W.proxy.write w outcome).resumed outcome.isRaised task).2 = .ended false)
  | _ => false

/-- The answers come in an order that does no harm: the last of the probes in progress to be
answered is the one that was started last, or has its result; and while an admission's own probe
writes, no older probe has been answered, or not with another result. -/
def InOrder : Op → Prop
  | .answer k status _ =>
      (∀ j < W.probes.length, j ≠ k → (W.resultOf j).isSome = true) →
        k + 1 = W.probes.length ∨
          W.resultOf (W.probes.length - 1) = some (W.proxy.answers i status)
  | .write k outcome =>
      W.decides k outcome = true → W.superseded k = false →
        ∀ last ∈ W.answered.getLast?, W.resultOf last = W.resultOf k
  | _ => True

/-! ### The steps of the calls -/

variable {i W} {W' : Probing} {k : Nat} {source : ProbeSource} {own : Bool} {task : Proxy.Task}

theorem step_answer {status : Option Nat} {wall : Time}
    (h : step i W (.answer k status wall) = some W') :
    ∃ source, W.probes[k]? = some ⟨source, none⟩ ∧
      W' = moved i { W with
          proxy := (W.proxy.checkReadiness i status wall).1
          answered := W.answered ++ [k] } k source (W.proxy.answers i status)
        (W.proxy.checkReadiness i status wall).2 := by
  simp only [step] at h
  split at h
  · rename_i source hprobe
    exact ⟨source, hprobe, (Option.some.inj h).symm⟩
  · cases h

theorem step_write {outcome : WriteOutcome} (h : step i W (.write k outcome) = some W') :
    ∃ source own task w, W.probes[k]? = some ⟨source, some (own, task)⟩ ∧
      task.write? = some w ∧
      W' = moved i
        { W with proxy := ((W.proxy.write w outcome).resumed outcome.isRaised task).1 } k source own
        ((W.proxy.write w outcome).resumed outcome.isRaised task).2 := by
  simp only [step] at h
  split at h
  · rename_i source own task hprobe
    split at h
    · cases h
    · rename_i w hw
      exact ⟨source, own, task, w, hprobe, hw, (Option.some.inj h).symm⟩
  · cases h

theorem resultOf_moved (hk : k < W.probes.length) (j : Nat) :
    (moved i W k source own task).resultOf j = if j = k then some own else W.resultOf j := by
  unfold moved resultOf
  by_cases hj : j = k
  · rw [hj, if_pos rfl, List.getElem?_set_self hk]
    rfl
  · rw [if_neg hj, List.getElem?_set_ne (Ne.symm hj)]

theorem length_moved : (moved i W k source own task).probes.length = W.probes.length :=
  List.length_set

/-- A probe that has just started has no result. -/
theorem resultOf_start (j : Nat) :
    Probing.resultOf { W with probes := W.probes ++ [⟨source, none⟩] } j = W.resultOf j := by
  unfold resultOf
  dsimp only
  rcases Nat.lt_trichotomy j W.probes.length with hlt | rfl | hgt
  · rw [List.getElem?_append_left hlt]
  · rw [List.getElem?_concat_length, List.getElem?_eq_none le_rfl]
    rfl
  · rw [List.getElem?_eq_none (by simp; omega), List.getElem?_eq_none (by omega)]

theorem lt_of_resultOf (h : (W.resultOf k).isSome = true) : k < W.probes.length := by
  by_contra hk
  rw [resultOf, List.getElem?_eq_none (by omega)] at h
  cases h

/-- Freshness, by what is known of the probes and of the flag. -/
theorem fresh_iff {n : Nat} {results : Nat → Option Bool} {ready : Bool}
    (hlength : W.probes.length = n) (hresults : ∀ k, W.resultOf k = results k)
    (hready : W.proxy.ready i = ready) :
    W.Fresh i ↔ ((∀ k < n, (results k).isSome = true) →
      ∀ k, k + 1 = n → results k = some ready) := by
  unfold Fresh
  simp only [hlength, hresults, hready]

/-- A new decision is right exactly when it was the probe's own result that decided. -/
theorem own_moved_iff (hown : W.Own) : (moved i W k source own task).Own ↔
    (source = .admission → task = .ended false → W.superseded k = false →
      W.proxy.ready i = own) := by
  unfold moved Own
  dsimp only
  split
  · rename_i hdecides
    constructor
    · intro hall _ _ hnewest
      exact hall _ (List.mem_append_right _ (List.mem_singleton_self _)) hnewest
    · intro hdecision decision hmem hnewest
      rcases List.mem_append.mp hmem with hold | hnew
      · exact hown decision hold hnewest
      · obtain rfl := List.mem_singleton.mp hnew
        exact hdecision hdecides.1 hdecides.2 hnewest
  · rename_i hdecides
    exact iff_of_true hown fun hsource htask => absurd ⟨hsource, htask⟩ hdecides

/-! ### The last answer -/

/-- The flag is the last answer. -/
structure Tracked (i : Nat) (W : Probing) : Prop where
  endpoint : i < W.proxy.endpoints.length
  known : ∀ k, (W.resultOf k).isSome = true → W.answered ≠ []
  last : ∀ k ∈ W.answered.getLast?, W.resultOf k = some (W.proxy.ready i)

theorem tracked_init {proxy : Proxy} (hi : i < proxy.endpoints.length) :
    Tracked i (init proxy) where
  endpoint := hi
  known := fun k hk => absurd hk Bool.false_ne_true
  last := fun k hk => absurd hk (by simp [init])

/-- A write leaves the flag alone, and so does what follows it. -/
theorem endpoints_resumed (P : Proxy) (w : Write) (outcome : WriteOutcome) (task : Proxy.Task) :
    ((P.write w outcome).resumed outcome.isRaised task).1.endpoints = P.endpoints := by
  rw [Proxy.resumed_endpoints, (Proxy.write_sameMemory w outcome).endpoints]

/-- A probe that goes on after its answer keeps its result. -/
theorem resultOf_goesOn (hprobe : W.probes[k]? = some ⟨source, some (own, task)⟩)
    (task' : Proxy.Task) (P : Proxy) (j : Nat) :
    (moved i { W with proxy := P } k source own task').resultOf j = W.resultOf j := by
  have hk : k < W.probes.length := (List.getElem?_eq_some_iff.mp hprobe).1
  rw [resultOf_moved (by exact hk)]
  split
  · rename_i hj
    rw [hj, resultOf, hprobe]
    rfl
  · rfl

theorem Tracked.step (h : Tracked i W) {op : Op} (hstep : Probing.step i W op = some W') :
    Tracked i W' := by
  cases op with
  | start source =>
      obtain rfl := Option.some.inj hstep
      exact
        { endpoint := h.endpoint
          known := fun k hk => h.known k (resultOf_start k ▸ hk)
          last := fun k hk => (resultOf_start k).trans (h.last k hk) }
  | answer k status wall =>
      obtain ⟨source, hprobe, rfl⟩ := step_answer hstep
      obtain ⟨hready, hlength⟩ := Proxy.checkReadiness_ready h.endpoint status wall
      have hk : k < W.probes.length := (List.getElem?_eq_some_iff.mp hprobe).1
      exact
        { endpoint := h.endpoint.trans_eq hlength.symm
          known := fun j _ => List.append_ne_nil_of_right_ne_nil _ (List.cons_ne_nil _ _)
          last := by
            intro j hj
            have hj : j = k := by simpa [moved] using hj.symm
            rw [resultOf_moved (by exact hk), if_pos hj]
            exact congrArg some hready.symm }
  | write k outcome =>
      obtain ⟨source, own, task, w, hprobe, -, rfl⟩ := step_write hstep
      have hends := endpoints_resumed W.proxy w outcome task
      exact
        { endpoint := h.endpoint.trans_eq (congrArg List.length hends).symm
          known := fun j hj => h.known j (resultOf_goesOn hprobe _ _ j ▸ hj)
          last := by
            intro j hj
            rw [resultOf_goesOn hprobe, h.last j hj, Proxy.ready, Proxy.ready]
            exact congrArg (fun endpoints => some (Option.any Readiness.ready endpoints[i]?))
              hends.symm }
  | serverMoves server =>
      obtain rfl := Option.some.inj hstep
      exact { endpoint := h.endpoint, known := h.known, last := h.last }

/-- After an answer, the flag is fresh if the probe is the last one that was started, or has its
result. -/
theorem fresh_answered_iff (hk : k < W.probes.length) (hlength : W'.probes.length = W.probes.length)
    (hresults : ∀ j, W'.resultOf j = if j = k then some own else W.resultOf j)
    (hready : W'.proxy.ready i = own) :
    W'.Fresh i ↔ ((∀ j < W.probes.length, j ≠ k → (W.resultOf j).isSome = true) →
      k + 1 = W.probes.length ∨ W.resultOf (W.probes.length - 1) = some own) := by
  rw [fresh_iff hlength hresults hready]
  constructor
  · intro hfresh hothers
    by_cases hlast : k + 1 = W.probes.length
    · exact Or.inl hlast
    · have hne : W.probes.length - 1 ≠ k := by omega
      have hresult := hfresh (fun j hj => ?_) (W.probes.length - 1) (by omega)
      · exact Or.inr (by rwa [if_neg hne] at hresult)
      · by_cases hjk : j = k
        · rw [if_pos hjk]
          rfl
        · rw [if_neg hjk]
          exact hothers j hj hjk
  · intro horder hquiet j hj
    by_cases hjk : j = k
    · rw [if_pos hjk]
    · rw [if_neg hjk]
      have hothers : ∀ j < W.probes.length, j ≠ k → (W.resultOf j).isSome = true := by
        intro j' hj' hne
        simpa only [if_neg hne] using hquiet j' hj'
      rcases horder hothers with hlast | hresult
      · omega
      · rwa [← hj, Nat.add_sub_cancel] at hresult

/-- An admission's last write: it decides with the result of its own probe exactly when that is
the last answer. -/
theorem Tracked.own_written_iff (h : Tracked i W) (hown : W.Own) {outcome : WriteOutcome}
    {w : Write} {P : Proxy} (hprobe : W.probes[k]? = some ⟨source, some (own, task)⟩)
    (hw : task.write? = some w) (hP : P.ready i = W.proxy.ready i) :
    (moved i { W with proxy := P } k source own
        ((W.proxy.write w outcome).resumed outcome.isRaised task).2).Own ↔
      W.InOrder i (.write k outcome) := by
  have hresult : W.resultOf k = some own := by
    rw [resultOf, hprobe]
    rfl
  have hdecides : W.decides k outcome = true ↔ source = .admission ∧
      ((W.proxy.write w outcome).resumed outcome.isRaised task).2 = .ended false := by
    unfold decides
    rw [hprobe]
    cases source <;> simp [hw]
  have hlast : W.proxy.ready i = own ↔
      ∀ last ∈ W.answered.getLast?, W.resultOf last = W.resultOf k := by
    rw [hresult]
    constructor
    · intro hflag last hmem
      rw [h.last last hmem, hflag]
    · intro hall
      -- its own answer is one of the answers
      have hsome : (W.answered.getLast?).isSome = true :=
        List.getLast?_isSome.mpr (h.known k (by rw [hresult]; rfl))
      obtain ⟨last, hmem⟩ := Option.isSome_iff_exists.mp hsome
      exact Option.some.inj ((h.last last hmem).symm.trans (hall last hmem))
  rw [own_moved_iff (by exact hown)]
  show (_ → _ → _ → P.ready i = own) ↔
    (W.decides k outcome = true → W.superseded k = false → _)
  rw [hP, hdecides, ← hlast, and_imp]
  rfl

theorem Tracked.current_step_iff (h : Tracked i W) (hcurrent : W.Current i) {op : Op}
    (hstep : Probing.step i W op = some W') : W'.Current i ↔ W.InOrder i op := by
  cases op with
  | start source =>
      obtain rfl := Option.some.inj hstep
      refine iff_of_true ⟨fun hquiet => ?_, hcurrent.2⟩ trivial
      -- the new probe is in progress
      have hnew := hquiet W.probes.length (by simp)
      rw [resultOf_start] at hnew
      exact absurd (lt_of_resultOf hnew) (lt_irrefl _)
  | answer k status wall =>
      obtain ⟨source, hprobe, rfl⟩ := step_answer hstep
      have hk : k < W.probes.length := (List.getElem?_eq_some_iff.mp hprobe).1
      obtain ⟨hready, -⟩ := Proxy.checkReadiness_ready h.endpoint status wall
      refine (and_iff_left ?_).trans
        (fresh_answered_iff hk length_moved (resultOf_moved (by exact hk)) hready)
      exact (own_moved_iff (by exact hcurrent.2)).mpr fun _ _ _ => hready
  | write k outcome =>
      obtain ⟨source, own, task, w, hprobe, hw, rfl⟩ := step_write hstep
      have hready : ((W.proxy.write w outcome).resumed outcome.isRaised task).1.ready i =
          W.proxy.ready i := by
        rw [Proxy.ready, endpoints_resumed, Proxy.ready]
      refine (and_iff_right ?_).trans (h.own_written_iff hcurrent.2 hprobe hw hready)
      exact (fresh_iff length_moved (resultOf_goesOn hprobe _ _)
        hready).mpr hcurrent.1
  | serverMoves server =>
      obtain rfl := Option.some.inj hstep
      exact iff_of_true hcurrent trivial

/-- **When readiness is current.** In every state of a run the flag is the result of the newest
probe, unless one is in progress, and admissions have decided with the results of their own probes,
exactly when the answers of the run come in an order that does no harm. -/
theorem current_iff {proxy : Proxy} (hi : i < proxy.endpoints.length) {ops : List Op}
    (hrun : Run (Steps (Probing.step i) Any) (init proxy) ops W) :
    (∀ ops₁ W₁, ops₁ <+: ops → exec (Probing.step i) (init proxy) ops₁ = some W₁ →
      W₁.Current i) ↔ Run (Steps (Probing.step i) (InOrder i)) (init proxy) ops W :=
  states_iff (fun _ _ _ h hstep => h.step hstep)
    (fun _ _ _ h hcurrent hstep => h.current_step_iff hcurrent hstep) hrun (tracked_init hi)
    ⟨fun _ k hk => absurd hk (by simp [init]), fun decision hmem => absurd hmem (by simp [init])⟩

instance (i : Nat) (W : Probing) (op : Op) : Decidable (W.InOrder i op) :=
  match op with
  | .answer k status _ => inferInstanceAs (Decidable ((∀ j < W.probes.length, j ≠ k →
      (W.resultOf j).isSome = true) → k + 1 = W.probes.length ∨
        W.resultOf (W.probes.length - 1) = some (W.proxy.answers i status)))
  | .write k outcome => inferInstanceAs (Decidable (W.decides k outcome = true →
      W.superseded k = false → ∀ last ∈ W.answered.getLast?, W.resultOf last = W.resultOf k))
  | .start _ => .isTrue trivial
  | .serverMoves _ => .isTrue trivial

/-- A proxy with one endpoint, which is not ready. -/
def booting : Proxy where
  server := .init
    { idleTimeout := 600
      shutdownEnabled := true
      adoptOnTraffic := false
      lastFireBefore := none
      powerOnCooldown := 300 } {} 0
  endpoints := [{ healthyStatuses := [200] }]
  endpointRows := .empty
  degraded := false
  droppedWrites := 0
  backendCalls := []

/-- The readiness loop and an admission probe the endpoint; the admission's probe writes a power
state, its event and the readiness. -/
def loopAndAdmission (answers : List Op) : List Op :=
  [.start .readinessLoop, .start .admission] ++ answers ++
    [.write 1 none, .write 1 none, .write 1 none]

theorem current_iff_loopAndAdmission :
    ∃ W, exec (guarded (Probing.step 0) (InOrder 0)) (init booting)
        (loopAndAdmission [.answer 0 none 5, .answer 1 (some 200) 6]) = some W ∧
      W.decisions = [⟨true, true, false⟩] ∧
      ∀ ops₁ W₁, ops₁ <+: loopAndAdmission [.answer 0 none 5, .answer 1 (some 200) 6] →
        exec (Probing.step 0) (init booting) ops₁ = some W₁ → W₁.Current 0 := by
  have hview : (exec (guarded (Probing.step 0) (InOrder 0)) (init booting)
      (loopAndAdmission [.answer 0 none 5, .answer 1 (some 200) 6])).map decisions =
      some [⟨true, true, false⟩] := by decide +kernel
  obtain ⟨W, hexec, hdecisions⟩ := Option.map_eq_some_iff.mp hview
  have hrun := run_of_exec_guarded hexec
  exact ⟨W, hexec, hdecisions,
    (current_iff (by decide) (run_any_of_exec (exec_of_run hrun))).mpr hrun⟩

/-- The probe of the loop times out after the later one of the admission has succeeded. Both calls
have returned in the end, and the flag is the older result, by which the admission has decided. -/
theorem current_counterexample :
    ∃ W, exec (Probing.step 0) (init booting)
        (loopAndAdmission [.answer 1 (some 200) 5, .answer 0 none 6] ++ [.write 0 none]) = some W ∧
      W.probes = [⟨.readinessLoop, some (false, .ended false)⟩,
        ⟨.admission, some (true, .ended false)⟩] ∧
      W.decisions = [⟨true, false, false⟩] ∧ ¬ W.Fresh 0 ∧ ¬ W.Own := by
  have hview : (exec (Probing.step 0) (init booting)
      (loopAndAdmission [.answer 1 (some 200) 5, .answer 0 none 6] ++ [.write 0 none])).map
        (fun W => (W.probes, W.decisions, W.proxy.ready 0)) =
      some ([⟨.readinessLoop, some (false, .ended false)⟩,
        ⟨.admission, some (true, .ended false)⟩], [⟨true, false, false⟩], false) := by
    decide +kernel
  obtain ⟨W, hexec, hW⟩ := Option.map_eq_some_iff.mp hview
  simp only [Prod.mk.injEq] at hW
  obtain ⟨hprobes, hdecisions, hready⟩ := hW
  refine ⟨W, hexec, hprobes, hdecisions, fun hfresh => ?_, fun hown => ?_⟩
  · have hquiet : ∀ k < W.probes.length, (W.resultOf k).isSome = true := by
      simp only [resultOf, hprobes]
      decide
    have hflag := hfresh hquiet 1 (by rw [hprobes]; rfl)
    rw [resultOf, hprobes, hready] at hflag
    cases hflag
  · have hdecision := hown ⟨true, false, false⟩
      (by rw [hdecisions]; exact List.mem_singleton_self _)
    exact absurd (hdecision rfl) Bool.false_ne_true

end Probing

end Relay
