import Mathlib.Data.Rat.Floor
import Mathlib.Order.Bounds.Defs
import Mathlib.Tactic.Linarith
import Relay.Server.Basic

/-!
# Relay.Server.Schedule

**Scheduled power-off: at most once per fire, and not lost.** `_schedule_off_tick` keeps two
pieces of memory, the last fire it acted on and the deferred flag, and updates them on five
branches. `scheduleTick` runs one call of it to its end, from whatever it finds of the
ownership and the switch, with whatever the backend answers; `scheduleTick_cases` says once
what the call does to the memory and when it attempts a power-off.

The injection from attempts to fires is a potential argument: each fire acted on pays for one
attempt, made at once or deferred (`attempts_le_acted`).
-/

namespace Relay

/-- A call of `_schedule_off_tick`: when it is made, what it finds, and what the backend
answers. -/
structure ScheduleTick where
  wall : Time
  active : Bool
  owned : Bool
  shutdownOverride : Option Bool
  state : PowerState
  accepted : Bool
  deriving DecidableEq, Repr

/-- What the call learns at its awaits: the power state, the answer to a power-off, and two
store writes. -/
def ScheduleTick.outcomes (x : ScheduleTick) : List Outcome :=
  [{ state := x.state }, { accepted := x.accepted }, {}, {}]

/-- A power-off for the schedule is attempted. -/
def ServerEvent.isScheduleOff : ServerEvent → Bool
  | .powerOff call => decide (call.reason = .schedule)
  | _ => false

namespace ServerRuntime

variable (S : ServerRuntime)

/-- The attempts of a scheduled power-off so far. -/
def attempts : Nat := S.log.countP ServerEvent.isScheduleOff

/-- A call goes on through a list of awaits. -/
def completed (active : Bool) (outcomes : List Outcome) (result : Step) : Step :=
  outcomes.foldl (fun result outcome => result.1.run result.2 active outcome) result

/-- `_schedule_off_tick` from its call to its end, where nothing raises. -/
def scheduleTick (x : ScheduleTick) : Step :=
  completed x.active x.outcomes
    (start { S with owned := x.owned, shutdownOverride := x.shutdownOverride }
      (.scheduleOffTick x.wall) x.active S.clock)

/-- The gate holds: the server is owned, auto-off is on, and the backend reports that the
server is on. -/
def gateHolds (x : ScheduleTick) : Bool :=
  x.owned && x.shutdownOverride.getD S.config.shutdownEnabled && decide (x.state = .on)

/-- The server after a sequence of calls. -/
def afterTicks (xs : List ScheduleTick) : ServerRuntime :=
  xs.foldl (fun S x => (S.scheduleTick x).1) S

/-- The fires a sequence of calls acts on: the values it stores in `last_fired_cron` after
the baseline. -/
def actedFires : ServerRuntime → List ScheduleTick → List Time
  | _, [] => []
  | S, x :: xs =>
      let S' := (S.scheduleTick x).1
      (if S.lastFiredCron.isSome ∧ S'.lastFiredCron ≠ S.lastFiredCron then
        S'.lastFiredCron.toList else []) ++ actedFires S' xs

/-! ### What one call does -/

variable {S} {last : Time → Time} {x : ScheduleTick}

/-- A call that has ended stays so. -/
@[simp] theorem completed_ended (active : Bool) (outcomes : List Outcome) (T : ServerRuntime) :
    completed active outcomes (T, .ended) = (T, .ended) := by
  induction outcomes with
  | nil => rfl
  | cons outcome outcomes ih =>
      have hrun : T.run .ended active outcome = (T, .ended) := by simp [run]
      rw [completed, List.foldl_cons, hrun]
      exact ih

theorem scheduleOffTick_first {T : ServerRuntime} (hcron : T.config.lastFireBefore = some last)
    (hfired : T.lastFiredCron = none) (active : Bool) (wall : Time) :
    T.scheduleOffTick active wall = ({ T with lastFiredCron := some wall }, .ended) := by
  simp [scheduleOffTick, hcron, hfired]

theorem scheduleOffTick_of_fired {T : ServerRuntime} {fired : Time}
    (hcron : T.config.lastFireBefore = some last) (hfired : T.lastFiredCron = some fired)
    (active : Bool) (wall : Time) :
    T.scheduleOffTick active wall =
      if last wall ≤ fired then
        if T.scheduleDeferred && !active then T.canPowerOff .deferred else (T, .ended)
      else if active then
        ({ T with scheduleDeferred := true, lastFiredCron := some (last wall) }, .ended)
      else T.canPowerOff (.schedule (last wall)) := by
  simp [scheduleOffTick, hcron, hfired]

/-- A call that asks for the power state: it attempts a power-off when the server is on, and
writes its memory in any case. -/
theorem completed_verifying (T : ServerRuntime) (x : ScheduleTick) {tick : ShutdownTick}
    (htick : ∀ now, tick ≠ .idle now) :
    ∃ T', completed x.active x.outcomes (T, .verifying tick) = (T', .ended) ∧
      T'.config = T.config ∧ T'.lastFiredCron = (T.finishTick (some tick)).lastFiredCron ∧
      T'.scheduleDeferred = (T.finishTick (some tick)).scheduleDeferred ∧
      T'.attempts = T.attempts + if x.state = .on then 1 else 0 := by
  cases tick with
  | idle now => exact absurd rfl (htick now)
  | schedule fire | deferred =>
      by_cases hon : x.state = .on
      · -- the two answers to the power-off differ in what is stored, not in the memory
        cases haccepted : x.accepted <;>
          simp [completed, ScheduleTick.outcomes, run, verified, powerOff, poweredOff, storing,
            finishTick, attempts, ServerEvent.isScheduleOff, hon, haccepted]
      · simp [completed, ScheduleTick.outcomes, run, verified, finishTick, attempts, hon]

/-- `_can_power_off` and what follows: the attempt is made when the gate holds. -/
theorem completed_canPowerOff (S : ServerRuntime) (x : ScheduleTick) (tick : ShutdownTick)
    (htick : ∀ now, tick ≠ .idle now) :
    ∃ T, completed x.active x.outcomes
        (canPowerOff { S with owned := x.owned, shutdownOverride := x.shutdownOverride } tick) =
          (T, .ended) ∧
      T.config = S.config ∧ T.lastFiredCron = (S.finishTick (some tick)).lastFiredCron ∧
      T.scheduleDeferred = (S.finishTick (some tick)).scheduleDeferred ∧
      T.attempts = S.attempts + if S.gateHolds x then 1 else 0 := by
  have hfinish : ∀ T : ServerRuntime, T.lastFiredCron = S.lastFiredCron →
      T.scheduleDeferred = S.scheduleDeferred →
      (T.finishTick (some tick)).lastFiredCron = (S.finishTick (some tick)).lastFiredCron ∧
      (T.finishTick (some tick)).scheduleDeferred =
        (S.finishTick (some tick)).scheduleDeferred := by
    intro T hfired hdeferred
    cases tick with
    | idle now => exact absurd rfl (htick now)
    | schedule fire => exact ⟨rfl, rfl⟩
    | deferred => exact ⟨hfired, rfl⟩
  unfold canPowerOff
  by_cases hgate : x.owned = true ∧ x.shutdownOverride.getD S.config.shutdownEnabled = true
  · obtain ⟨T, hdone, hconfig, hfired, hdeferred, hattempts⟩ := completed_verifying
      { S with owned := x.owned, shutdownOverride := x.shutdownOverride } x htick
    obtain ⟨hfired', hdeferred'⟩ := hfinish
      { S with owned := x.owned, shutdownOverride := x.shutdownOverride } rfl rfl
    refine ⟨T, ?_, hconfig, hfired.trans hfired', hdeferred.trans hdeferred', ?_⟩
    · rw [if_pos (by simpa [shutdownEnabledNow] using hgate)]
      exact hdone
    · rw [hattempts]
      simp [gateHolds, hgate, attempts]
  · obtain ⟨hfired, hdeferred⟩ := hfinish
      { S with owned := x.owned, shutdownOverride := x.shutdownOverride } rfl rfl
    rw [if_neg (by simpa [shutdownEnabledNow] using hgate)]
    refine ⟨_, rfl, ?_, hfired, hdeferred, ?_⟩
    · cases tick <;> rfl
    · have hclosed : S.gateHolds x = false := by
        by_contra hopen
        simp only [gateHolds, Bool.not_eq_false, Bool.and_eq_true] at hopen
        exact hgate hopen.1
      rw [hclosed]
      cases tick <;> rfl

/-- What a call does: it takes the baseline; or it sees no new fire, and makes up for a
deferred one when the server is idle; or it acts on a new fire, now or later. -/
theorem scheduleTick_cases (hcron : S.config.lastFireBefore = some last) (x : ScheduleTick) :
    ∃ T, S.scheduleTick x = (T, .ended) ∧ T.config = S.config ∧
      ((S.lastFiredCron = none ∧ T.lastFiredCron = some x.wall ∧
          T.scheduleDeferred = S.scheduleDeferred ∧ T.attempts = S.attempts) ∨
        (∃ fired, S.lastFiredCron = some fired ∧ last x.wall ≤ fired ∧
          T.lastFiredCron = some fired ∧
          ((S.scheduleDeferred = true ∧ x.active = false ∧ T.scheduleDeferred = false ∧
              T.attempts = S.attempts + if S.gateHolds x then 1 else 0) ∨
            ((S.scheduleDeferred = false ∨ x.active = true) ∧
              T.scheduleDeferred = S.scheduleDeferred ∧ T.attempts = S.attempts))) ∨
        (∃ fired, S.lastFiredCron = some fired ∧ fired < last x.wall ∧
          T.lastFiredCron = some (last x.wall) ∧ T.scheduleDeferred = x.active ∧
          T.attempts = S.attempts + if x.active = false ∧ S.gateHolds x then 1 else 0)) := by
  set found := { S with owned := x.owned, shutdownOverride := x.shutdownOverride } with hfound
  have htick : S.scheduleTick x =
      completed x.active x.outcomes (found.scheduleOffTick x.active x.wall) := rfl
  rw [htick]
  rcases Option.eq_none_or_eq_some S.lastFiredCron with hfired | ⟨fired, hfired⟩
  · rw [scheduleOffTick_first (T := found) hcron hfired, completed_ended]
    exact ⟨_, rfl, rfl, Or.inl ⟨hfired, rfl, rfl, rfl⟩⟩
  rw [scheduleOffTick_of_fired (T := found) hcron hfired]
  by_cases hnew : last x.wall ≤ fired
  · rw [if_pos hnew]
    by_cases hmakeUp : S.scheduleDeferred = true ∧ x.active = false
    · obtain ⟨T, hdone, hconfig, hT, hdeferred, hattempts⟩ :=
        completed_canPowerOff S x .deferred (by simp)
      rw [if_pos (by simp [hfound, hmakeUp]), hdone]
      exact ⟨T, rfl, hconfig, Or.inr (Or.inl ⟨fired, hfired, hnew, hT.trans hfired, Or.inl
        ⟨hmakeUp.1, hmakeUp.2, hdeferred, hattempts⟩⟩)⟩
    · have hquiet : S.scheduleDeferred = false ∨ x.active = true := by
        cases hd : S.scheduleDeferred <;> cases ha : x.active <;> simp_all
      rw [if_neg (by simpa [hfound] using hmakeUp), completed_ended]
      exact ⟨_, rfl, rfl, Or.inr (Or.inl ⟨fired, hfired, hnew, hfired, Or.inr
        ⟨hquiet, rfl, rfl⟩⟩)⟩
  · rw [if_neg hnew]
    by_cases hactive : x.active = true
    · rw [if_pos hactive, completed_ended]
      exact ⟨_, rfl, rfl, Or.inr (Or.inr ⟨fired, hfired, not_le.mp hnew, rfl, hactive.symm,
        by simp [hactive, hfound, attempts]⟩)⟩
    · obtain ⟨T, hdone, hconfig, hT, hdeferred, hattempts⟩ :=
        completed_canPowerOff S x (.schedule (last x.wall)) (by simp)
      have hidle : x.active = false := by simpa using hactive
      rw [if_neg hactive, hdone]
      exact ⟨T, rfl, hconfig, Or.inr (Or.inr ⟨fired, hfired, not_le.mp hnew, hT,
        hdeferred.trans hidle.symm, by simpa [hidle] using hattempts⟩)⟩

/-! ### Sequences of calls -/

variable {fires : Set Time} {xs : List ScheduleTick}

@[simp] theorem afterTicks_nil (S : ServerRuntime) : S.afterTicks [] = S := rfl

@[simp] theorem afterTicks_cons (S : ServerRuntime) (x : ScheduleTick) (xs : List ScheduleTick) :
    S.afterTicks (x :: xs) = (S.scheduleTick x).1.afterTicks xs := rfl

theorem afterTicks_append (S : ServerRuntime) (xs ys : List ScheduleTick) :
    S.afterTicks (xs ++ ys) = (S.afterTicks xs).afterTicks ys := List.foldl_append

theorem scheduleTick_config (hcron : S.config.lastFireBefore = some last) (x : ScheduleTick) :
    (S.scheduleTick x).1.config = S.config := by
  obtain ⟨T, hT, hconfig, -⟩ := scheduleTick_cases hcron x
  rw [hT]
  exact hconfig

theorem afterTicks_config (hcron : S.config.lastFireBefore = some last)
    (xs : List ScheduleTick) : (S.afterTicks xs).config = S.config := by
  induction xs generalizing S with
  | nil => rfl
  | cons x xs ih =>
      have hconfig := scheduleTick_config hcron x
      rw [afterTicks_cons, ih (hconfig ▸ hcron), hconfig]

/-- The last fire acted on does not go back; an off that is newly deferred belongs to a new
fire. -/
theorem afterTicks_later (hcron : S.config.lastFireBefore = some last) {fired : Time}
    (hfired : S.lastFiredCron = some fired) (xs : List ScheduleTick) :
    ∃ fired', (S.afterTicks xs).lastFiredCron = some fired' ∧ fired ≤ fired' ∧
      (S.scheduleDeferred = false → (S.afterTicks xs).scheduleDeferred = true →
        fired < fired') := by
  induction xs generalizing S fired with
  | nil =>
      refine ⟨fired, hfired, le_refl fired, fun hno hyes => ?_⟩
      exact absurd (hno.symm.trans hyes) Bool.false_ne_true
  | cons x xs ih =>
      obtain ⟨T, hT, hconfig, hcases⟩ := scheduleTick_cases hcron x
      rw [afterTicks_cons, hT]
      rcases hcases with ⟨hnone, -⟩ | ⟨fired₁, hfired₁, -, hsame, hmade⟩ |
        ⟨fired₁, hfired₁, hnew, hacted, -⟩
      · exact absurd (hnone.symm.trans hfired) (by simp)
      · obtain rfl := Option.some.inj (hfired.symm.trans hfired₁)
        obtain ⟨fired', hlater, hle, hlt⟩ := ih (hconfig ▸ hcron) hsame
        refine ⟨fired', hlater, hle, fun hno => hlt ?_⟩
        rcases hmade with ⟨hyes, -⟩ | ⟨-, hkept, -⟩
        · exact absurd (hno.symm.trans hyes) Bool.false_ne_true
        · exact hkept.trans hno
      · obtain rfl := Option.some.inj (hfired.symm.trans hfired₁)
        obtain ⟨fired', hlater, hle, -⟩ := ih (hconfig ▸ hcron) hacted
        have hlt := lt_of_lt_of_le hnew hle
        exact ⟨fired', hlater, hlt.le, fun _ _ => hlt⟩

/-- A call that attempts a power-off has acted on a fire since the last attempt: it sees a
new one now, or makes up for a deferred one. No off is deferred after it. -/
theorem attempt_cases (hcron : S.config.lastFireBefore = some last)
    (hattempt : S.attempts < (S.scheduleTick x).1.attempts) :
    (S.scheduleTick x).1.scheduleDeferred = false ∧
      (S.scheduleTick x).1.attempts = S.attempts + 1 ∧
      ∃ fired, S.lastFiredCron = some fired ∧
        ((S.scheduleDeferred = true ∧ (S.scheduleTick x).1.lastFiredCron = some fired) ∨
          (fired < last x.wall ∧ (S.scheduleTick x).1.lastFiredCron = some (last x.wall))) := by
  obtain ⟨T, hT, -, hcases⟩ := scheduleTick_cases hcron x
  rw [hT] at hattempt ⊢
  rcases hcases with ⟨-, -, -, hsame⟩ | ⟨fired, hfired, -, hkept, hmade⟩ |
    ⟨fired, hfired, hnew, hacted, hdeferred, hmade⟩
  · exact absurd hattempt (by simp [hsame])
  · rcases hmade with ⟨hdue, -, hdone, hcount⟩ | ⟨-, -, hsame⟩
    · refine ⟨hdone, ?_, fired, hfired, Or.inl ⟨hdue, hkept⟩⟩
      dsimp only at hattempt ⊢
      split at hcount <;> omega
    · exact absurd hattempt (by simp [hsame])
  · by_cases hnow : x.active = false ∧ S.gateHolds x = true
    · rw [if_pos hnow] at hmade
      exact ⟨hdeferred.trans hnow.1, hmade, fired, hfired, Or.inr ⟨hnew, hacted⟩⟩
    · rw [if_neg hnow] at hmade
      exact absurd hattempt (by simp [hmade])

/-- What the memory says since the baseline: a deferred off belongs to a fire after it. -/
def SinceBaseline (fires : Set Time) (base : Time) (S : ServerRuntime) : Prop :=
  ∃ fired, S.lastFiredCron = some fired ∧ base ≤ fired ∧
    (S.scheduleDeferred = true → base < fired ∧ fired ∈ fires)

theorem SinceBaseline.afterTicks {base : Time} (hcron : S.config.lastFireBefore = some last)
    (hlast : ∀ t, last t ∈ fires) (h : SinceBaseline fires base S) (xs : List ScheduleTick) :
    SinceBaseline fires base (S.afterTicks xs) := by
  induction xs generalizing S with
  | nil => exact h
  | cons x xs ih =>
      obtain ⟨T, hT, hconfig, hcases⟩ := scheduleTick_cases hcron x
      obtain ⟨fired, hfired, hbase, hdeferred⟩ := h
      rw [afterTicks_cons, hT]
      refine ih (hconfig ▸ hcron) ?_
      rcases hcases with ⟨hnone, -⟩ | ⟨fired₁, hfired₁, -, hkept, hmade⟩ |
        ⟨fired₁, hfired₁, hnew, hacted, -⟩
      · exact absurd (hnone.symm.trans hfired) (by simp)
      · obtain rfl := Option.some.inj (hfired.symm.trans hfired₁)
        refine ⟨fired, hkept, hbase, fun hyes => hdeferred ?_⟩
        rcases hmade with ⟨hdue, -⟩ | ⟨-, hsame, -⟩
        · exact hdue
        · exact hsame.symm.trans hyes
      · obtain rfl := Option.some.inj (hfired.symm.trans hfired₁)
        have hlt := lt_of_le_of_lt hbase hnew
        exact ⟨last x.wall, hacted, hlt.le, fun _ => ⟨hlt, hlast x.wall⟩⟩

/-- The fires acted on are fires, and they increase. -/
theorem actedFires_increase (hcron : S.config.lastFireBefore = some last)
    (hlast : ∀ t, last t ∈ fires) (xs : List ScheduleTick) :
    (actedFires S xs).Pairwise (· < ·) ∧
      ∀ f ∈ actedFires S xs, f ∈ fires ∧ ∀ fired, S.lastFiredCron = some fired → fired < f := by
  induction xs generalizing S with
  | nil => exact ⟨List.Pairwise.nil, fun f hf => absurd hf List.not_mem_nil⟩
  | cons x xs ih =>
      obtain ⟨T, hT, hconfig, hcases⟩ := scheduleTick_cases hcron x
      obtain ⟨hpairwise, hmem⟩ := ih (S := T) (hconfig ▸ hcron)
      rw [actedFires, hT]
      rcases hcases with ⟨hnone, -⟩ | ⟨fired, hfired, -, hkept, -⟩ |
        ⟨fired, hfired, hnew, hacted, -⟩
      · simp only [hnone, Option.isSome_none, Bool.false_eq_true, false_and, if_false,
          List.nil_append]
        exact ⟨hpairwise, fun f hf => ⟨(hmem f hf).1, fun fired h => absurd h (by simp)⟩⟩
      · simp only [hfired, hkept, ne_eq, not_true_eq_false, and_false, if_false, List.nil_append]
        refine ⟨hpairwise, fun f hf => ⟨(hmem f hf).1, fun fired' h => ?_⟩⟩
        obtain rfl := Option.some.inj h
        exact (hmem f hf).2 fired hkept
      · have hne : some (last x.wall) ≠ some fired := fun h => hnew.ne' (Option.some.inj h)
        simp only [hfired, hacted, Option.isSome_some, hne, ne_eq, not_false_eq_true, and_self,
          if_true, Option.toList_some, List.singleton_append, List.pairwise_cons, List.mem_cons]
        refine ⟨⟨fun f hf => (hmem f hf).2 _ hacted, hpairwise⟩, ?_⟩
        rintro f (rfl | hf)
        · exact ⟨hlast x.wall, fun fired' h => Option.some.inj h ▸ hnew⟩
        · refine ⟨(hmem f hf).1, fun fired' h => ?_⟩
          obtain rfl := Option.some.inj h
          exact hnew.trans ((hmem f hf).2 _ hacted)

/-- Each fire acted on pays for one attempt, which a deferred off has still to make. -/
theorem attempts_le_acted (hcron : S.config.lastFireBefore = some last)
    (xs : List ScheduleTick) :
    (S.afterTicks xs).attempts + (S.afterTicks xs).scheduleDeferred.toNat ≤
      S.attempts + S.scheduleDeferred.toNat + (actedFires S xs).length := by
  induction xs generalizing S with
  | nil => simp [actedFires]
  | cons x xs ih =>
      obtain ⟨T, hT, hconfig, hcases⟩ := scheduleTick_cases hcron x
      have hrest := ih (S := T) (hconfig ▸ hcron)
      rw [actedFires, hT, afterTicks_cons, hT, List.length_append]
      dsimp only
      refine hrest.trans ?_
      rcases hcases with ⟨hnone, -, hkept, hsame⟩ | ⟨fired, hfired, -, hkept, hmade⟩ |
        ⟨fired, hfired, hnew, hacted, hdeferred, hmade⟩
      · rw [hkept, hsame]
        omega
      · rcases hmade with ⟨hdue, -, hdone, hcount⟩ | ⟨-, hsame, hcount⟩
        · -- the attempt was paid for when the off was deferred
          rw [hdue, hdone, hcount]
          simp only [Bool.toNat_true, Bool.toNat_false]
          split <;> omega
        · rw [hsame, hcount]
          omega
      · have hne : some (last x.wall) ≠ some fired := fun h => hnew.ne' (Option.some.inj h)
        rw [hdeferred, hmade]
        simp only [hfired, hacted, Option.isSome_some, hne, ne_eq, not_false_eq_true, and_self,
          if_true, Option.toList_some, List.length_singleton]
        cases x.active with
        | true => simp; omega
        | false =>
            simp only [Bool.toNat_false, true_and]
            split <;> omega

/-- While the server is busy a deferred off stays deferred and nothing is attempted. -/
theorem afterTicks_busy (hcron : S.config.lastFireBefore = some last) {fired : Time}
    (hfired : S.lastFiredCron = some fired) (hdeferred : S.scheduleDeferred = true)
    (hbusy : ∀ x ∈ xs, x.active = true) :
    (S.afterTicks xs).scheduleDeferred = true ∧ (S.afterTicks xs).attempts = S.attempts := by
  induction xs generalizing S fired with
  | nil => exact ⟨hdeferred, rfl⟩
  | cons x xs ih =>
      obtain ⟨T, hT, hconfig, hcases⟩ := scheduleTick_cases hcron x
      have hactive : x.active = true := hbusy x List.mem_cons_self
      have hrest := fun y hy => hbusy y (List.mem_cons_of_mem x hy)
      rw [afterTicks_cons, hT]
      rcases hcases with ⟨hnone, -⟩ | ⟨fired₁, -, -, hkept, hmade⟩ |
        ⟨fired₁, -, -, hacted, hdefers, hmade⟩
      · exact absurd (hnone.symm.trans hfired) (by simp)
      · rcases hmade with ⟨-, hidle, -⟩ | ⟨-, hsame, hcount⟩
        · exact absurd (hidle.symm.trans hactive) Bool.false_ne_true
        · rw [← hcount]
          exact ih (hconfig ▸ hcron) hkept (hsame.trans hdeferred) hrest
      · have hcount : T.attempts = S.attempts := by simpa [hactive] using hmade
        rw [← hcount]
        exact ih (hconfig ▸ hcron) hacted (hdefers.trans hactive) hrest

/-- An idle call with an off deferred attempts it when the gate holds. -/
theorem scheduleTick_idle (hcron : S.config.lastFireBefore = some last) {fired : Time}
    (hfired : S.lastFiredCron = some fired) (hdeferred : S.scheduleDeferred = true)
    (hidle : x.active = false) :
    (S.scheduleTick x).1.attempts = S.attempts + if S.gateHolds x then 1 else 0 := by
  obtain ⟨T, hT, -, hcases⟩ := scheduleTick_cases hcron x
  rw [hT]
  rcases hcases with ⟨hnone, -⟩ | ⟨fired₁, -, -, -, hmade⟩ | ⟨fired₁, -, -, -, -, hmade⟩
  · exact absurd (hnone.symm.trans hfired) (by simp)
  · rcases hmade with ⟨-, -, -, hcount⟩ | ⟨hno | hbusy, -⟩
    · exact hcount
    · exact absurd (hno.symm.trans hdeferred) Bool.false_ne_true
    · exact absurd (hidle.symm.trans hbusy) Bool.false_ne_true
  · simpa [hidle] using hmade

/-! ### The schedule -/

section Sequences

variable (hS : S.config.lastFireBefore = some last)

include hS

theorem afterTicks_lastFireBefore (xs : List ScheduleTick) :
    (S.afterTicks xs).config.lastFireBefore = some last := by
  rw [afterTicks_config hS]
  exact hS

/-- The first call attempts nothing, and every later attempt acts on a fire after it. -/
theorem attempts_after_baseline (hfire : ∀ t, last t ∈ fires) (hnone : S.lastFiredCron = none)
    (hdone : S.scheduleDeferred = false) (first : ScheduleTick) (xs : List ScheduleTick)
    (x : ScheduleTick) :
    (S.afterTicks [first]).attempts = S.attempts ∧
      ((S.afterTicks (first :: xs)).attempts < (S.afterTicks (first :: xs ++ [x])).attempts →
        ∃ f ∈ fires, first.wall < f ∧
          (S.afterTicks (first :: xs ++ [x])).lastFiredCron = some f) := by
  obtain ⟨T, hT, -, hcases⟩ := scheduleTick_cases hS first
  rcases hcases with ⟨-, hbase, hdeferred, hcount⟩ | ⟨fired, hfired, -⟩ | ⟨fired, hfired, -⟩
  · refine ⟨?_, fun hattempt => ?_⟩
    · rw [afterTicks_cons, hT]
      exact hcount
    · have hsince : SinceBaseline fires first.wall (S.afterTicks (first :: xs)) := by
        rw [afterTicks_cons, hT]
        refine SinceBaseline.afterTicks (hT ▸ afterTicks_lastFireBefore hS [first]) hfire ?_ xs
        exact ⟨first.wall, hbase, le_refl _, fun hyes =>
          absurd ((hdeferred.trans hdone).symm.trans hyes) Bool.false_ne_true⟩
      rw [afterTicks_append] at hattempt ⊢
      obtain ⟨-, -, fired, hfired, hmade⟩ :=
        attempt_cases (afterTicks_lastFireBefore hS _) hattempt
      obtain ⟨fired', hfired', hbase', hdeferred'⟩ := hsince
      obtain rfl := Option.some.inj (hfired.symm.trans hfired')
      rcases hmade with ⟨hdue, hkept⟩ | ⟨hnew, hacted⟩
      · exact ⟨fired, (hdeferred' hdue).2, (hdeferred' hdue).1, hkept⟩
      · exact ⟨last x.wall, hfire x.wall, lt_of_le_of_lt hbase' hnew, hacted⟩
  · exact absurd (hnone.symm.trans hfired) (by simp)
  · exact absurd (hnone.symm.trans hfired) (by simp)

/-- Of two attempts the later one acts on a later fire. -/
theorem attempts_later (xs : List ScheduleTick) (x : ScheduleTick) (ys : List ScheduleTick)
    (y : ScheduleTick)
    (hx : (S.afterTicks xs).attempts < (S.afterTicks (xs ++ [x])).attempts)
    (hy : (S.afterTicks (xs ++ x :: ys)).attempts <
      (S.afterTicks (xs ++ x :: ys ++ [y])).attempts) :
    ∃ f g, (S.afterTicks (xs ++ [x])).lastFiredCron = some f ∧
      (S.afterTicks (xs ++ x :: ys ++ [y])).lastFiredCron = some g ∧ f < g := by
  have hB : S.afterTicks (xs ++ [x]) = ((S.afterTicks xs).scheduleTick x).1 :=
    afterTicks_append S xs [x]
  have hC : S.afterTicks (xs ++ x :: ys) = (S.afterTicks (xs ++ [x])).afterTicks ys := by
    rw [List.append_cons, afterTicks_append]
  have hD : S.afterTicks (xs ++ x :: ys ++ [y]) =
      ((S.afterTicks (xs ++ x :: ys)).scheduleTick y).1 := afterTicks_append S _ [y]
  rw [hB] at hx
  rw [hD] at hy
  obtain ⟨hdone, -, fired, -, hmade⟩ := attempt_cases (afterTicks_lastFireBefore hS xs) hx
  obtain ⟨f, hf⟩ : ∃ f, (S.afterTicks (xs ++ [x])).lastFiredCron = some f := by
    rw [hB]
    rcases hmade with ⟨-, hkept⟩ | ⟨-, hacted⟩
    · exact ⟨fired, hkept⟩
    · exact ⟨_, hacted⟩
  obtain ⟨f', hf', hle, hlt⟩ := afterTicks_later (afterTicks_lastFireBefore hS _) hf ys
  rw [← hC] at hf' hlt
  obtain ⟨-, -, fired', hfired', hmade'⟩ := attempt_cases (afterTicks_lastFireBefore hS _) hy
  obtain rfl := Option.some.inj (hf'.symm.trans hfired')
  rcases hmade' with ⟨hdue, hkept⟩ | ⟨hnew, hacted⟩
  · -- the second attempt makes up for an off deferred in between
    exact ⟨f, f', hf, hD ▸ hkept, hlt (hB ▸ hdone) hdue⟩
  · exact ⟨f, last y.wall, hf, hD ▸ hacted, lt_of_le_of_lt hle hnew⟩

/-- A call that first sees a fire while the server is active defers its off. -/
theorem afterTicks_deferred (xs : List ScheduleTick) {fired : Time}
    (hfired : (S.afterTicks xs).lastFiredCron = some fired) (hnew : fired < last x.wall)
    (hactive : x.active = true) :
    (S.afterTicks (xs ++ [x])).scheduleDeferred = true ∧
      (S.afterTicks (xs ++ [x])).attempts = (S.afterTicks xs).attempts ∧
      (S.afterTicks (xs ++ [x])).lastFiredCron = some (last x.wall) := by
  obtain ⟨T, hT, -, hcases⟩ := scheduleTick_cases (afterTicks_lastFireBefore hS xs) x
  rw [afterTicks_append, afterTicks_cons, hT, afterTicks_nil]
  rcases hcases with ⟨hnone, -⟩ | ⟨fired₁, hfired₁, hold, -⟩ |
    ⟨fired₁, -, -, hacted, hdefers, hmade⟩
  · exact absurd (hnone.symm.trans hfired) (by simp)
  · obtain rfl := Option.some.inj (hfired.symm.trans hfired₁)
    exact absurd hnew (not_lt.mpr hold)
  · exact ⟨hdefers.trans hactive, by simpa [hactive] using hmade, hacted⟩

/-- A deferred off is not lost: the first call that finds the server idle makes up for it. -/
theorem attempts_of_deferred (xs : List ScheduleTick) (zs : List ScheduleTick) (y : ScheduleTick)
    {fired : Time} (hfired : (S.afterTicks xs).lastFiredCron = some fired)
    (hnew : fired < last x.wall) (hactive : x.active = true) (hzs : ∀ z ∈ zs, z.active = true)
    (hidle : y.active = false) :
    (S.afterTicks (xs ++ x :: zs)).attempts = (S.afterTicks xs).attempts ∧
      (S.afterTicks (xs ++ x :: zs ++ [y])).attempts =
        (S.afterTicks xs).attempts + if S.gateHolds y then 1 else 0 := by
  have hafter := afterTicks_lastFireBefore hS
  obtain ⟨hdeferred, hcount, hacted⟩ := afterTicks_deferred hS xs hfired hnew hactive
  obtain ⟨hstill, hquiet⟩ := afterTicks_busy (hafter _) hacted hdeferred hzs
  obtain ⟨fired', hfired', -⟩ := afterTicks_later (hafter _) hacted zs
  have hmade := scheduleTick_idle (afterTicks_config (hafter (xs ++ [x])) zs ▸ hafter _)
    hfired' hstill hidle
  rw [List.append_cons, afterTicks_append, afterTicks_append _ _ [y], afterTicks_append _ _ zs,
    afterTicks_cons, afterTicks_nil, hmade, hquiet, hcount]
  refine ⟨rfl, ?_⟩
  rw [gateHolds, afterTicks_config (hafter _), afterTicks_config hS, gateHolds]

end Sequences

variable {config : ServerConfig}

/-- **A scheduled off happens at most once per fire, and a deferred one is not lost.** For
every sequence of calls, where `last_fire_before` gives the greatest fire strictly before its
argument:

* the first call attempts nothing, and every later attempt acts on a fire after it;
* the fires acted on are fires and increase, there are no more attempts than such fires, and
  of two attempts the later one acts on a later fire;
* when a call first sees a fire while the server is active, nothing is attempted as long as
  it is, and the first call that finds it idle attempts one power-off if the gate holds. -/
theorem schedule_off_of_ticks {fires : Set Time} {last : Time → Time}
    (hcron : config.lastFireBefore = some last)
    (hlast : ∀ t, IsGreatest {f | f ∈ fires ∧ f < t} (last t)) (row : ServerRow) (now : Time) :
    let S := init config row now
    (∀ first xs x, (S.afterTicks [first]).attempts = 0 ∧
      ((S.afterTicks (first :: xs)).attempts < (S.afterTicks (first :: xs ++ [x])).attempts →
        ∃ f ∈ fires, first.wall < f ∧
          (S.afterTicks (first :: xs ++ [x])).lastFiredCron = some f)) ∧
    (∀ xs, (actedFires S xs).Pairwise (· < ·) ∧ (∀ f ∈ actedFires S xs, f ∈ fires) ∧
      (S.afterTicks xs).attempts ≤ (actedFires S xs).length) ∧
    (∀ xs x ys y, (S.afterTicks xs).attempts < (S.afterTicks (xs ++ [x])).attempts →
      (S.afterTicks (xs ++ x :: ys)).attempts < (S.afterTicks (xs ++ x :: ys ++ [y])).attempts →
      ∃ f g, (S.afterTicks (xs ++ [x])).lastFiredCron = some f ∧
        (S.afterTicks (xs ++ x :: ys ++ [y])).lastFiredCron = some g ∧ f < g) ∧
    (∀ xs x zs y fired, (S.afterTicks xs).lastFiredCron = some fired → fired < last x.wall →
      x.active = true → (∀ z ∈ zs, z.active = true) → y.active = false →
      (S.afterTicks (xs ++ x :: zs)).attempts = (S.afterTicks xs).attempts ∧
      (S.afterTicks (xs ++ x :: zs ++ [y])).attempts =
        (S.afterTicks xs).attempts + if S.gateHolds y then 1 else 0) := by
  intro S
  have hS : S.config.lastFireBefore = some last := hcron
  have hfire : ∀ t, last t ∈ fires := fun t => (hlast t).1.1
  refine ⟨fun first xs x => ?_, fun xs => ?_, fun xs x ys y => ?_,
    fun xs x zs y fired hfired hnew hactive hzs hidle => ?_⟩
  · exact attempts_after_baseline hS hfire rfl rfl first xs x
  · obtain ⟨hpairwise, hmem⟩ := actedFires_increase hS hfire xs
    refine ⟨hpairwise, fun f hf => (hmem f hf).1, ?_⟩
    have hcount := attempts_le_acted hS xs
    have hzero : S.attempts + S.scheduleDeferred.toNat = 0 := rfl
    omega
  · exact attempts_later hS xs x ys y
  · exact attempts_of_deferred hS xs zs y hfired hnew hactive hzs hidle

/-- The full hours. -/
def fullHours : Set Time := {f | ∃ n : ℤ, f = 3600 * n}

/-- The last full hour strictly before an instant. -/
def lastFullHour (wall : Time) : Time := 3600 * (⌈wall / 3600⌉ - 1 : ℤ)

theorem isGreatest_lastFullHour (t : Time) :
    IsGreatest {f | f ∈ fullHours ∧ f < t} (lastFullHour t) := by
  have hdiv : t / 3600 * 3600 = t := div_mul_cancel₀ t (by norm_num)
  constructor
  · refine ⟨⟨_, rfl⟩, ?_⟩
    have hceil := Int.ceil_lt_add_one (t / 3600)
    unfold lastFullHour
    push_cast
    linarith
  · rintro f ⟨⟨n, rfl⟩, hlt⟩
    have hn : (n : ℚ) < t / 3600 := by linarith
    have hle : n ≤ ⌈t / 3600⌉ - 1 := by
      have := Int.lt_ceil.mpr hn
      omega
    have hcast : (n : ℚ) ≤ (⌈t / 3600⌉ - 1 : ℤ) := by exact_mod_cast hle
    unfold lastFullHour
    linarith

/-- A server that is switched off on the hour. -/
def hourly : ServerConfig where
  idleTimeout := 600
  shutdownEnabled := true
  adoptOnTraffic := false
  lastFireBefore := some lastFullHour
  powerOnCooldown := 60

/-- A call on an owned server that is on. -/
def ownedTick (wall : Time) (active : Bool) : ScheduleTick := ⟨wall, active, true, none, .on, true⟩

/-- The baseline is taken; the next full hour finds the server busy, twice; then it is idle,
and one power-off is attempted. -/
theorem schedule_off_of_ticks_deferred :
    ((init hourly {} 0).afterTicks [ownedTick 100 true, ownedTick 4000 true, ownedTick 4030 true,
      ownedTick 4060 false]).attempts = 1 := by
  have hcron : hourly.lastFireBefore = some lastFullHour := rfl
  have hticks := (schedule_off_of_ticks hcron isGreatest_lastFullHour {} 0).2.2.2
    [ownedTick 100 true] (ownedTick 4000 true) [ownedTick 4030 true] (ownedTick 4060 false) 100
    rfl (by decide +kernel) rfl (by simp [ownedTick]) rfl
  exact hticks.2

end ServerRuntime

end Relay
