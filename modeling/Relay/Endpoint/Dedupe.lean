import Relay.Endpoint.Wake
import Relay.Library.History

/-!
# Relay.Endpoint.Dedupe

**How often a box is woken** (`maybe_power_on` of `relay/servers.py`). Every held request and every
queue manager that finds the server off calls it, and `last_power_on_attempt` is to let one call
through for each cooldown. That no call has been let through yet is written as an attempt at the
clock reading `0`, so that the first call has to wait, too, while the clock itself has not run for
the cooldown (`dedupe_iff`).
-/

namespace Relay

open Runs

/-! ### The calls of a run -/

/-- A call of `maybe_power_on`: its clock reading, and whether it calls `backend.power_on`. -/
structure WakeAttempt where
  at' : Time
  issued : Bool
  deriving DecidableEq, Repr

/-- A server, and the calls of `maybe_power_on` so far. -/
structure WakeLog where
  server : ServerRuntime
  attempts : List WakeAttempt

namespace WakeLog

def init (config : ServerConfig) (row : ServerRow) (now : Time) : WakeLog where
  server := .init config row now
  attempts := []

/-- The call of `maybe_power_on` that a step is. -/
def attemptOf (S : ServerRuntime) (active : Bool) : ServerRuntime.Op → List WakeAttempt
  | .call .maybePowerOn now => [⟨now, S.callsPowerOn active (.call .maybePowerOn now)⟩]
  | _ => []

/-- A step of the server, which is not restarted. The flag says whether its endpoints are
active. -/
def step (W : WakeLog) (op : Bool × ServerRuntime.Op) : Option WakeLog :=
  if op.2.isRestart then none
  else (W.server.step op.1 op.2).map (fun server =>
    { server := server, attempts := W.attempts ++ attemptOf W.server op.1 op.2 })

/-- A call powers the server on exactly when no earlier call has within the cooldown. -/
def Exact (cooldown : Time) (attempts : List WakeAttempt) : Prop :=
  History.Always (fun before attempt => attempt.issued = true ↔
    ∀ earlier ∈ before, earlier.issued = true → cooldown < attempt.at' - earlier.at') attempts

/-- The first call, if there is one, comes when the clock has run for the cooldown. -/
def FirstCooled (cooldown : Time) (attempts : List WakeAttempt) : Prop :=
  ∀ first ∈ attempts.head?, cooldown < first.at'

/-- What the server knows of the calls: when the last one that powered it on was. -/
structure Tracked (config : ServerConfig) (W : WakeLog) : Prop where
  config_eq : W.server.config = config
  past : ∀ attempt ∈ W.attempts, attempt.at' ≤ W.server.clock
  last : (∃ attempt ∈ W.attempts, attempt.issued = true ∧
      attempt.at' = W.server.lastPowerOnAttempt ∧
      ∀ other ∈ W.attempts, other.issued = true → other.at' ≤ attempt.at') ∨
    ((∀ attempt ∈ W.attempts, attempt.issued = false) ∧ W.server.lastPowerOnAttempt = 0)
  exact_iff : Exact config.powerOnCooldown W.attempts ↔
    FirstCooled config.powerOnCooldown W.attempts

variable {config : ServerConfig} {row : ServerRow} {start : Time} {W W' : WakeLog}
  {op : Bool × ServerRuntime.Op}

theorem tracked_init : Tracked config (init config row start) where
  config_eq := rfl
  past := by simp [init]
  last := Or.inr ⟨by simp [init], rfl⟩
  exact_iff := iff_of_true (History.always_nil _) (by simp [FirstCooled, init])

/-- Where the first call has been let through, the last one that was is the attempt the server
remembers, and its cooldown is all that the next call waits for. -/
theorem Tracked.issued_iff (h : Tracked config W) (hexact : Exact config.powerOnCooldown W.attempts)
    (hne : W.attempts ≠ []) {now : Time} :
    config.powerOnCooldown < now - W.server.lastPowerOnAttempt ↔
      ∀ earlier ∈ W.attempts, earlier.issued = true →
        config.powerOnCooldown < now - earlier.at' := by
  obtain ⟨first, rest, hattempts⟩ := List.exists_cons_of_ne_nil hne
  -- nothing comes before the first call
  have hfirst : first.issued = true :=
    (hexact [] first rest hattempts).mpr fun earlier hearlier => absurd hearlier List.not_mem_nil
  rcases h.last with ⟨attempt, hmem, hissued, hlast, hmax⟩ | ⟨hnone, -⟩
  · rw [← hlast]
    constructor
    · intro hcooled earlier hearlier hearlierIssued
      exact hcooled.trans_le (sub_le_sub_left (hmax earlier hearlier hearlierIssued) now)
    · intro hall
      exact hall attempt hmem hissued
  · have hmem : first ∈ W.attempts := hattempts ▸ List.mem_cons_self
    exact absurd hfirst (by rw [hnone first hmem]; exact Bool.false_ne_true)

/-- The calls are as they should be after one more exactly when the first of them was. -/
theorem Tracked.exact_snoc_iff (h : Tracked config W) (attempt : WakeAttempt)
    (hissued : attempt.issued = true ↔
      config.powerOnCooldown < attempt.at' - W.server.lastPowerOnAttempt) :
    Exact config.powerOnCooldown (W.attempts ++ [attempt]) ↔
      FirstCooled config.powerOnCooldown (W.attempts ++ [attempt]) := by
  unfold Exact
  rw [History.always_snoc, hissued]
  by_cases hne : W.attempts = []
  · -- the first call waits for an attempt at `0`
    have hzero : W.server.lastPowerOnAttempt = 0 := by
      rcases h.last with ⟨other, hmem, -⟩ | ⟨-, hzero⟩
      · rw [hne] at hmem
        exact absurd hmem List.not_mem_nil
      · exact hzero
    simp [hne, FirstCooled, History.always_nil, hzero]
  · have hhead : (W.attempts ++ [attempt]).head? = W.attempts.head? :=
      List.head?_append_of_ne_nil _ hne
    unfold FirstCooled
    rw [hhead]
    constructor
    · intro hexact
      exact h.exact_iff.mp hexact.1
    · intro hfirst
      have hexact := h.exact_iff.mpr hfirst
      exact ⟨hexact, h.issued_iff hexact hne⟩

/-- The server remembers the last call that it let through. -/
theorem Tracked.last_snoc (h : Tracked config W) (attempt : WakeAttempt)
    (hnow : W.server.clock ≤ attempt.at') :
    (∃ last ∈ W.attempts ++ [attempt], last.issued = true ∧
        last.at' = (if attempt.issued then attempt.at' else W.server.lastPowerOnAttempt) ∧
        ∀ other ∈ W.attempts ++ [attempt], other.issued = true → other.at' ≤ last.at') ∨
      ((∀ other ∈ W.attempts ++ [attempt], other.issued = false) ∧
        (if attempt.issued then attempt.at' else W.server.lastPowerOnAttempt) = 0) := by
  cases hissued : attempt.issued with
  | true =>
      refine Or.inl ⟨attempt, List.mem_append_right _ (List.mem_singleton_self _), hissued, rfl, ?_⟩
      intro other hother _
      rcases List.mem_append.mp hother with hold | hnew
      · exact (h.past other hold).trans hnow
      · rw [List.mem_singleton.mp hnew]
  | false =>
      simp only [Bool.false_eq_true, if_false]
      rcases h.last with ⟨last, hmem, hlast, hat, hmax⟩ | ⟨hnone, hzero⟩
      · refine Or.inl ⟨last, List.mem_append_left _ hmem, hlast, hat, ?_⟩
        intro other hother hotherIssued
        rcases List.mem_append.mp hother with hold | hnew
        · exact hmax other hold hotherIssued
        · rw [List.mem_singleton.mp hnew, hissued] at hotherIssued
          cases hotherIssued
      · refine Or.inr ⟨?_, hzero⟩
        intro other hother
        rcases List.mem_append.mp hother with hold | hnew
        · exact hnone other hold
        · rw [List.mem_singleton.mp hnew, hissued]

theorem tracked_step (h : Tracked config W) (hstep : W.step op = some W') : Tracked config W' := by
  unfold step at hstep
  split at hstep
  · cases hstep
  · rename_i hop
    obtain ⟨server, hserver, rfl⟩ := Option.map_eq_some_iff.mp hstep
    obtain ⟨active, op⟩ := op
    have hop : op.isRestart = false := by simpa using hop
    obtain ⟨hconfig, hclock⟩ := ServerRuntime.step_frame hserver hop
    cases hwake : op.isMaybePowerOn with
    | false =>
        have hnone : attemptOf W.server active op = [] := by
          unfold attemptOf
          split
          · cases hwake
          · rfl
        have hattempt := ServerRuntime.step_attempt hserver hop hwake
        simp only [hnone, List.append_nil]
        exact
          { config_eq := hconfig.trans h.config_eq
            past := fun attempt hattempt => (h.past attempt hattempt).trans hclock
            last := by simpa only [hattempt] using h.last
            exact_iff := h.exact_iff }
    | true =>
        obtain ⟨now, rfl⟩ := ServerRuntime.Op.exists_of_isMaybePowerOn hwake
        obtain ⟨hnow, hclock', hissued, hattempt⟩ := ServerRuntime.step_maybePowerOn hserver
        rw [h.config_eq] at hissued
        exact
          { config_eq := hconfig.trans h.config_eq
            past := by
              intro attempt hmem
              rcases List.mem_append.mp hmem with hold | hnew
              · exact (h.past attempt hold).trans hclock
              · rw [List.mem_singleton.mp hnew]
                exact hclock'.ge
            last := by
              rw [hattempt]
              exact h.last_snoc ⟨now, _⟩ hnow
            exact_iff := h.exact_snoc_iff ⟨now, _⟩ hissued }

/-- **When the wakes are deduped exactly.** In every run of a server, the calls of `maybe_power_on`
that power it on are those with no such call in the cooldown before, exactly when the first call
comes later than `power_on_cooldown` on the clock. -/
theorem dedupe_iff {ops : List (Bool × ServerRuntime.Op)}
    (hrun : Run (Steps step Any) (init config row start) ops W) :
    Exact config.powerOnCooldown W.attempts ↔ FirstCooled config.powerOnCooldown W.attempts :=
  (hrun.invariant (I := Tracked config) (fun _ _ _ h hst => tracked_step h hst.1)
    tracked_init).exact_iff

/-- A server that waits five minutes between two wakes. -/
def patient : ServerConfig where
  idleTimeout := 600
  shutdownEnabled := true
  adoptOnTraffic := false
  lastFireBefore := none
  powerOnCooldown := 300

/-- Two held requests and a queue manager wake the server, and the backend answers the first of
them in between. -/
def threeWakes (first second third : Time) : List (Bool × ServerRuntime.Op) :=
  [(true, .call .maybePowerOn first), (true, .call .maybePowerOn second),
    (true, .resume 0 { accepted := true, now := second }), (true, .call .maybePowerOn third)]

theorem dedupe_iff_threeWakes :
    ∃ W, exec step (init patient {} 0) (threeWakes 400 500 701) = some W ∧
      W.attempts = [⟨400, true⟩, ⟨500, false⟩, ⟨701, true⟩] ∧ Exact 300 W.attempts := by
  have hview : (exec step (init patient {} 0) (threeWakes 400 500 701)).map attempts =
      some [⟨400, true⟩, ⟨500, false⟩, ⟨701, true⟩] := by decide +kernel
  obtain ⟨W, hexec, hattempts⟩ := Option.map_eq_some_iff.mp hview
  refine ⟨W, hexec, hattempts, (dedupe_iff (run_any_of_exec hexec)).mpr ?_⟩
  intro first hfirst
  rw [hattempts] at hfirst
  rw [← Option.some.inj hfirst]
  decide +kernel

/-- The machine has been up for less than the cooldown, and the first wake is refused. -/
theorem dedupe_counterexample :
    ∃ W, exec step (init patient {} 0) [(true, .call .maybePowerOn 100)] = some W ∧
      W.attempts = [⟨100, false⟩] ∧ ¬ Exact 300 W.attempts := by
  have hview : (exec step (init patient {} 0) [(true, .call .maybePowerOn 100)]).map attempts =
      some [⟨100, false⟩] := by decide +kernel
  obtain ⟨W, hexec, hattempts⟩ := Option.map_eq_some_iff.mp hview
  refine ⟨W, hexec, hattempts, fun hexact => ?_⟩
  rw [hattempts] at hexact
  have hissued := hexact [] ⟨100, false⟩ [] rfl
  exact absurd (hissued.mpr fun earlier hearlier => absurd hearlier List.not_mem_nil)
    Bool.false_ne_true

end WakeLog

end Relay
