import Mathlib.Data.List.Nodup
import Mathlib.Logic.Function.Basic
import Relay.Library.Simulation

/-!
# Relay.Library.Slots

**A scheduler with owned slots.** Jobs wait in one list and belong to owners. An owner runs its
jobs on a slot of its own, or on the slot of the owner that lends it one; an owner with neither
takes a free slot when a job of it starts. `settle` starts the first job that may start, as long
as there is one.

This is what a spot queue is for, without its bookkeeping: nothing is counted here, there are no
clocks, and an owner is a name. `overtakes_le` is the guarantee of the list: a job that waits
without a slot sees at most as many slots go to others as jobs were ahead of it.
-/

namespace Slots

/-- How many slots there are, how many jobs an owner may run at a time (any number when
negative), and whether a job runs alone. -/
structure Limits where
  capacity : Nat
  perOwner : Int
  exclusive : Bool

/-- The jobs that wait and run, the owners of slots in the order in which they took them, and who
lends to whom. -/
@[ext] structure State (κ α : Type*) where
  waiting : List α
  running : List α
  slots : List κ
  lends : κ → Option κ
  ready : Bool

/-- What may happen to a scheduler. -/
inductive Label (κ α : Type*)
  | submit (a : α)
  | cancel (a : α)
  | finish (a : α)
  | surrender (k : κ)
  | lend (k : κ) (lender : Option κ)
  | setReady (ready : Bool)
  | settle

variable {κ α : Type*} [DecidableEq κ] [DecidableEq α]

namespace State

/-- The slot an owner may use, its own or the one lent to it. -/
def slotOf (s : State κ α) (k : κ) : Option κ :=
  if k ∈ s.slots then some k else (s.lends k).filter (fun lender => decide (lender ∈ s.slots))

/-- The owner has no slot to use. -/
def slotless (s : State κ α) (k : κ) : Bool := (s.slotOf k).isNone

/-- No job of the owner waits or runs. -/
def isGone (owner : α → κ) (s : State κ α) (k : κ) : Bool :=
  (s.waiting ++ s.running).all (fun a => decide (owner a ≠ k))

variable (limits : Limits) (owner : α → κ)

/-- Whether a waiting job may start. -/
def mayStart (s : State κ α) (a : α) : Bool :=
  if limits.exclusive && !s.running.isEmpty then false
  else if s.slotless (owner a) then decide (s.slots.length < limits.capacity)
  else decide (limits.perOwner < 0) ||
    decide ((s.running.countP (fun b => decide (owner b = owner a)) : Int) < limits.perOwner)

/-- A job starts; its owner takes a slot unless it has one to use. -/
def start (s : State κ α) (a : α) : State κ α :=
  { s with
    waiting := s.waiting.erase a
    running := s.running ++ [a]
    slots := if s.slotless (owner a) then s.slots ++ [owner a] else s.slots }

/-- The first job that may start, and the scheduler once it has. -/
def startNext (s : State κ α) : Option (α × State κ α) :=
  (s.waiting.find? (s.mayStart limits owner)).map (fun a => (a, s.start owner a))

/-- Starts jobs until none may start. -/
def settle (s : State κ α) : State κ α :=
  if s.ready then Drain.drain (startNext limits owner) s.waiting.length s else s

/-- The jobs `settle` starts, each with the state it starts in. -/
def starts (s : State κ α) : List (State κ α × α) :=
  if s.ready then Drain.picks (startNext limits owner) s.waiting.length s else []

/-- What a label does before jobs are started. An owner that surrenders its slot and has no job
left is forgotten, and with it what was lent to it. -/
def apply (s : State κ α) : Label κ α → State κ α
  | .submit a => { s with waiting := s.waiting ++ [a] }
  | .cancel a => { s with waiting := s.waiting.erase a }
  | .finish a => { s with running := s.running.erase a }
  | .surrender k =>
      { s with
        slots := s.slots.filter (fun k' => k' ≠ k)
        lends := if s.isGone owner k then Function.update s.lends k none else s.lends }
  | .lend k lender => { s with lends := Function.update s.lends k lender }
  | .setReady ready => { s with ready := ready }
  | .settle => s

/-- Whether a label is possible: jobs are new when they come, and there when they go. -/
def possible (s : State κ α) : Label κ α → Bool
  | .submit a => decide (a ∉ s.waiting ∧ a ∉ s.running)
  | .cancel a => decide (a ∈ s.waiting)
  | .finish a => decide (a ∈ s.running)
  | .surrender k => decide (k ∈ s.slots)
  | .lend .. | .setReady _ | .settle => true

end State

/-- Whether jobs are started after the label. -/
def Label.settles : Label κ α → Bool
  | .submit _ | .finish _ | .surrender _ | .settle => true
  | .cancel _ | .lend .. | .setReady _ => false

/-- The labels that bring work to its end. -/
def Label.works : Label κ α → Bool
  | .finish _ | .surrender _ => true
  | _ => false

/-- The labels that add no work. -/
def Label.addsNone : Label κ α → Bool
  | .submit _ => false
  | _ => true

namespace State

variable (limits : Limits) (owner : α → κ)

/-- One step of a scheduler. -/
def step (s : State κ α) (l : Label κ α) : Option (State κ α) :=
  if s.possible l then
    some (if l.settles then (s.apply owner l).settle limits owner else s.apply owner l)
  else none

/-- The jobs a step starts, each with the state it starts in. -/
def startsOf (s : State κ α) (l : Label κ α) : List (State κ α × α) :=
  if s.possible l && l.settles then (s.apply owner l).starts limits owner else []

/-- The scheduler before any job has come. -/
def init : State κ α := ⟨[], [], [], fun _ => none, false⟩

section Possible

variable {s : State κ α} {a : α} {k : κ}

theorem possible_submit : s.possible (.submit a) = true ↔ a ∉ s.waiting ∧ a ∉ s.running :=
  decide_eq_true_iff

theorem possible_cancel : s.possible (.cancel a) = true ↔ a ∈ s.waiting := decide_eq_true_iff

theorem possible_finish : s.possible (.finish a) = true ↔ a ∈ s.running := decide_eq_true_iff

theorem possible_surrender : s.possible (.surrender k) = true ↔ k ∈ s.slots := decide_eq_true_iff

end Possible

/-! ### Who takes a slot while others wait for one -/

/-- The job starts on a slot its owner takes while `a`, which waits for a slot too, does not. -/
def overtakes (a : α) (p : State κ α × α) : Bool :=
  decide (a ∈ p.1.waiting) && decide (p.2 ≠ a) &&
    (p.1.slotless (owner a) && p.1.slotless (owner p.2))

/-- The number of jobs ahead of a waiting job. -/
def ahead (s : State κ α) (a : α) : Nat := if a ∈ s.waiting then s.waiting.idxOf a else 0

variable {limits : Limits} {owner : α → κ} {s t : State κ α} {a b : α}

theorem overtakes_iff {p : State κ α × α} : overtakes owner a p = true ↔
    a ∈ p.1.waiting ∧ p.2 ≠ a ∧
      p.1.slotless (owner a) = true ∧ p.1.slotless (owner p.2) = true := by
  simp only [overtakes, Bool.and_eq_true, decide_eq_true_eq, and_assoc]

omit [DecidableEq α] in
/-- Without a slot to use, all that counts is whether one is free. -/
theorem mayStart_of_slotless (ha : s.slotless (owner a) = true) (hb : s.slotless (owner b) = true)
    (hmay : s.mayStart limits owner b = true) : s.mayStart limits owner a = true := by
  unfold mayStart at hmay ⊢
  rw [if_pos hb] at hmay
  rw [if_pos ha]
  exact hmay

/-- No job moves back in a list from which another one is removed. -/
theorem idxOf_erase_le {l : List α} (hne : b ≠ a) : (l.erase b).idxOf a ≤ l.idxOf a := by
  induction l with
  | nil => exact Nat.le_refl _
  | cons x l ih =>
      by_cases hb : x = b
      · subst hb
        rw [List.erase_cons_head, List.idxOf_cons_ne _ hne]
        exact Nat.le_succ _
      · rw [List.erase_cons_tail (by simpa using hb)]
        by_cases ha : x = a
        · simp [ha]
        · rw [List.idxOf_cons_ne _ ha, List.idxOf_cons_ne _ ha]
          exact Nat.succ_le_succ ih

/-- A job moves up when one ahead of it is removed. -/
theorem idxOf_erase_lt {l : List α} (hb : b ∈ l) (hlt : l.idxOf b < l.idxOf a) :
    (l.erase b).idxOf a < l.idxOf a := by
  induction l with
  | nil => exact absurd hb List.not_mem_nil
  | cons x l ih =>
      by_cases hxa : x = a
      · rw [hxa, List.idxOf_cons_self] at hlt
        exact absurd hlt (Nat.not_lt_zero _)
      · rw [List.idxOf_cons_ne _ hxa] at hlt ⊢
        by_cases hxb : x = b
        · subst hxb
          rw [List.erase_cons_head]
          exact Nat.lt_succ_self _
        · rw [List.idxOf_cons_ne _ hxb] at hlt
          rw [List.erase_cons_tail (by simpa using hxb), List.idxOf_cons_ne _ hxa]
          exact Nat.succ_lt_succ (ih (List.mem_of_ne_of_mem (Ne.symm hxb) hb)
            (Nat.lt_of_succ_lt_succ hlt))

/-- An injective map moves nothing. -/
theorem idxOf_map {β : Type*} [DecidableEq β] {f : β → α} (hf : Function.Injective f) (l : List β)
    (b : β) : (l.map f).idxOf (f b) = l.idxOf b := by
  induction l with
  | nil => rfl
  | cons x l ih =>
      rw [List.map_cons]
      by_cases hx : x = b
      · rw [hx, List.idxOf_cons_self, List.idxOf_cons_self]
      · rw [List.idxOf_cons_ne _ hx, List.idxOf_cons_ne _ (hf.ne hx), ih]

/-- What `find?` selects stands no further back than what it could have selected. -/
theorem idxOf_le_of_find? {l : List α} {p : α → Bool} (hfind : l.find? p = some b) (ha : a ∈ l)
    (hpa : p a = true) : l.idxOf b ≤ l.idxOf a := by
  induction l with
  | nil => exact absurd ha List.not_mem_nil
  | cons x l ih =>
      by_cases hx : p x = true
      · rw [List.find?_cons_of_pos hx] at hfind
        obtain rfl := Option.some.inj hfind
        rw [List.idxOf_cons_self]
        exact Nat.zero_le _
      · rw [List.find?_cons_of_neg hx] at hfind
        have hxa : x ≠ a := fun heq => hx (heq ▸ hpa)
        have hxb : x ≠ b := fun heq => hx (heq ▸ List.find?_some hfind)
        rw [List.idxOf_cons_ne _ hxa, List.idxOf_cons_ne _ hxb]
        exact Nat.succ_le_succ (ih hfind (List.mem_of_ne_of_mem (Ne.symm hxa) ha))

omit [DecidableEq κ] in
/-- A waiting list without repetitions from which a job is removed. -/
theorem ahead_erase_le (hnd : s.waiting.Nodup) (hw : t.waiting = s.waiting.erase b) :
    t.ahead a ≤ s.ahead a := by
  unfold ahead
  split
  · rename_i hmem
    rw [hw, hnd.mem_erase_iff] at hmem
    rw [if_pos hmem.2, hw]
    exact idxOf_erase_le (Ne.symm hmem.1)
  · exact Nat.zero_le _

theorem startNext_eq_some (h : s.startNext limits owner = some (b, t)) :
    s.waiting.find? (s.mayStart limits owner) = some b ∧ t = s.start owner b := by
  obtain ⟨b', hfind, heq⟩ := Option.map_eq_some_iff.mp h
  obtain ⟨rfl, rfl⟩ := Prod.mk.inj heq
  exact ⟨hfind, rfl⟩

/-- Every start that overtakes a job is of one ahead of it. -/
theorem overtakes_add_ahead_le (a : α) (hnd : s.waiting.Nodup)
    (h : s.startNext limits owner = some (b, t)) :
    (if overtakes owner a (s, b) then 1 else 0) + t.ahead a ≤ s.ahead a := by
  obtain ⟨hfind, rfl⟩ := startNext_eq_some h
  split
  · rename_i hover
    obtain ⟨ha, hne, hslotless, hslotless'⟩ := overtakes_iff.mp hover
    -- `a` may start as well, so the job selected stands before it
    have hmay : s.mayStart limits owner a = true :=
      mayStart_of_slotless hslotless hslotless' (List.find?_some hfind)
    have hle := idxOf_le_of_find? hfind ha hmay
    have hb : b ∈ s.waiting := List.mem_of_find?_eq_some hfind
    have hidx : s.waiting.idxOf b ≠ s.waiting.idxOf a := fun heq =>
      hne ((List.idxOf_inj hb).mp heq)
    have hlt := idxOf_erase_lt hb (Nat.lt_of_le_of_ne hle hidx)
    have hmem : a ∈ (s.start owner b).waiting := (hnd.mem_erase_iff).mpr ⟨Ne.symm hne, ha⟩
    rw [ahead, ahead, if_pos hmem, if_pos ha]
    have hw : (s.start owner b).waiting = s.waiting.erase b := rfl
    rw [hw]
    omega
  · have hle : (s.start owner b).ahead a ≤ s.ahead a := ahead_erase_le hnd rfl
    omega

/-! ### The rule for runs -/

/-- A job is either waiting or running, and there once. -/
def Once (s : State κ α) : Prop := (s.waiting ++ s.running).Nodup

theorem Once.start (h : s.Once) (hb : b ∈ s.waiting) : (s.start owner b).Once := by
  have hperm : (s.start owner b).waiting ++ (s.start owner b).running |>.Perm
      (s.waiting ++ s.running) := by
    change (s.waiting.erase b ++ (s.running ++ [b])).Perm (s.waiting ++ s.running)
    have hmove : (s.waiting.erase b ++ (s.running ++ [b])).Perm
        (b :: s.waiting.erase b ++ s.running) := by
      rw [← List.append_assoc]
      exact List.perm_append_singleton b _
    exact hmove.trans ((List.perm_cons_erase hb).symm.append_right _)
  exact hperm.nodup_iff.mpr h

theorem Once.settle (h : s.Once) : (s.settle limits owner).Once := by
  unfold State.settle
  split
  · refine Drain.drain_induction (I := Once) (fun s b t hs hnext => ?_) _ s h
    obtain ⟨hfind, rfl⟩ := startNext_eq_some hnext
    exact hs.start (List.mem_of_find?_eq_some hfind)
  · exact h

theorem Once.apply {l : Label κ α} (h : s.Once) (hl : s.possible l = true) :
    (s.apply owner l).Once := by
  cases l with
  | submit a =>
      have hnew := possible_submit.mp hl
      have hperm : (s.waiting ++ [a] ++ s.running).Perm (a :: (s.waiting ++ s.running)) := by
        rw [List.append_assoc]
        exact List.perm_middle
      refine hperm.nodup_iff.mpr (List.nodup_cons.mpr ⟨?_, h⟩)
      rw [List.mem_append]
      exact not_or.mpr hnew
  | cancel a => exact h.sublist ((List.erase_sublist).append_right _)
  | finish a => exact h.sublist ((List.erase_sublist).append_left _)
  | surrender k => exact h
  | lend k lender => exact h
  | setReady ready => exact h
  | settle => exact h

theorem step_eq_some {l : Label κ α} (h : s.step limits owner l = some t) :
    s.possible l = true ∧
      t = if l.settles then (s.apply owner l).settle limits owner else s.apply owner l := by
  obtain ⟨hl, ht⟩ := Option.ite_none_right_eq_some.mp h
  exact ⟨hl, (Option.some.inj ht).symm⟩

theorem Once.step {l : Label κ α} (h : s.Once) (hstep : s.step limits owner l = some t) :
    t.Once := by
  obtain ⟨hl, rfl⟩ := step_eq_some hstep
  split
  · exact (h.apply hl).settle
  · exact h.apply hl

/-- Labels other than the arrival of the job move it back in no case. -/
theorem ahead_apply_le {l : Label κ α} (h : s.Once) (hnew : l ≠ .submit a) :
    (s.apply owner l).ahead a ≤ s.ahead a := by
  have hnd : s.waiting.Nodup := (List.nodup_append.mp h).1
  cases l with
  | submit b =>
      have hne : a ≠ b := fun heq => hnew (heq ▸ rfl)
      unfold ahead
      split
      · rename_i hmem
        have ha : a ∈ s.waiting := by
          rcases List.mem_append.mp hmem with ha | ha
          · exact ha
          · exact absurd (List.mem_singleton.mp ha) hne
        rw [if_pos ha]
        exact Nat.le_of_eq (List.idxOf_append_of_mem ha)
      · exact Nat.zero_le _
  | cancel b => exact ahead_erase_le hnd rfl
  | finish b => exact Nat.le_refl _
  | surrender k => exact Nat.le_refl _
  | lend k lender => exact Nat.le_refl _
  | setReady ready => exact Nat.le_refl _
  | settle => exact Nat.le_refl _

theorem countP_starts_le (h : s.Once) :
    (s.starts limits owner).countP (overtakes owner a) + (s.settle limits owner).ahead a ≤
      s.ahead a := by
  unfold starts settle
  split
  · have hloop : ∀ (log : List (State κ α × α)) (u : State κ α) (b : α) (t : State κ α),
        u.Once ∧ log.countP (overtakes owner a) + u.ahead a ≤ s.ahead a →
        u.startNext limits owner = some (b, t) →
        t.Once ∧ (log ++ [(u, b)]).countP (overtakes owner a) + t.ahead a ≤ s.ahead a := by
      intro log u b t hu hnext
      have hnd : u.waiting.Nodup := (List.nodup_append.mp hu.1).1
      have hone := overtakes_add_ahead_le a hnd hnext
      obtain ⟨hfind, rfl⟩ := startNext_eq_some hnext
      refine ⟨hu.1.start (List.mem_of_find?_eq_some hfind), ?_⟩
      rw [List.countP_append, List.countP_singleton]
      omega
    simpa using (Drain.drain_history hloop s.waiting.length [] s ⟨h, by simp⟩).2
  · simp

/-- What a step starts ahead of a job brings the job forward. -/
theorem countP_startsOf_le {l : Label κ α} (h : s.Once) (hnew : l ≠ .submit a)
    (hstep : s.step limits owner l = some t) :
    (s.startsOf limits owner l).countP (overtakes owner a) + t.ahead a ≤ s.ahead a := by
  obtain ⟨hl, rfl⟩ := step_eq_some hstep
  have happly : (s.apply owner l).ahead a ≤ s.ahead a := ahead_apply_le h hnew
  unfold startsOf
  rw [hl, Bool.true_and]
  split
  · have hstarts : ((s.apply owner l).starts limits owner).countP (overtakes owner a) +
        ((s.apply owner l).settle limits owner).ahead a ≤ (s.apply owner l).ahead a :=
      countP_starts_le (h.apply hl)
    omega
  · simpa using happly

/-- **Bounded overtaking.** While a job waits without a slot to use, at most as many slots go to
other owners as jobs were ahead of it at the start. -/
theorem overtakes_le {ls : List (Label κ α)} (h : s.Once) (hnew : Label.submit a ∉ ls)
    (hrun : Runs.exec (step limits owner) s ls = some t) :
    (Simulation.trace (step limits owner) (startsOf limits owner) s ls).countP
      (overtakes owner a) ≤ s.ahead a := by
  have hok : ∀ l ∈ ls, l ≠ Label.submit a := fun l hl heq => hnew (heq ▸ hl)
  have hstep : ∀ (s : State κ α) (l : Label κ α) (t : State κ α), s.Once → l ≠ .submit a →
      s.step limits owner l = some t →
      (s.startsOf limits owner l).countP (overtakes owner a) + t.ahead a ≤ s.ahead a :=
    fun _ _ _ hs hl hst => countP_startsOf_le hs hl hst
  have hbound := Simulation.countP_trace_le (fun _ _ _ hs hst => Once.step hs hst) hstep h hok hrun
  exact Nat.le_trans (Nat.le_add_right _ _) hbound

/-! ### The work that is left -/

/-- The work left: a waiting job has yet to start and to finish, and its slot to be given up. -/
def load (s : State κ α) : Nat := 3 * s.waiting.length + s.running.length + s.slots.length

theorem load_start_lt (owner : α → κ) (hb : b ∈ s.waiting) : (s.start owner b).load < s.load := by
  have hwaiting : (s.start owner b).waiting.length + 1 = s.waiting.length :=
    List.length_erase_add_one hb
  have hrunning : (s.start owner b).running.length = s.running.length + 1 := List.length_append
  have hslots : (s.start owner b).slots.length ≤ s.slots.length + 1 := by
    unfold start
    dsimp only
    split
    · exact Nat.le_of_eq List.length_append
    · exact Nat.le_succ _
  unfold load
  omega

theorem load_settle_le (s : State κ α) : (s.settle limits owner).load ≤ s.load := by
  unfold settle
  split
  · refine Drain.drain_induction (I := fun t => t.load ≤ s.load) (fun u b t hu hnext => ?_) _ s
      (Nat.le_refl _)
    obtain ⟨hfind, rfl⟩ := startNext_eq_some hnext
    have hlt := load_start_lt owner (List.mem_of_find?_eq_some hfind)
    omega
  · exact Nat.le_refl _

theorem load_apply_le {l : Label κ α} (hl : s.possible l = true) (hadds : Label.addsNone l = true) :
    (s.apply owner l).load + (if Label.works l then 1 else 0) ≤ s.load := by
  unfold load
  cases l with
  | submit a => exact absurd hadds Bool.false_ne_true
  | cancel a =>
      have hle : (s.waiting.erase a).length ≤ s.waiting.length := List.length_erase_le
      change 3 * (s.waiting.erase a).length + s.running.length + s.slots.length + 0 ≤ _
      omega
  | finish a =>
      have hlen := List.length_erase_add_one (possible_finish.mp hl)
      change 3 * s.waiting.length + (s.running.erase a).length + s.slots.length + 1 ≤ _
      omega
  | surrender k =>
      have hlt : (s.slots.filter (fun k' => k' ≠ k)).length < s.slots.length :=
        List.length_filter_lt_length_iff_exists.mpr ⟨k, possible_surrender.mp hl, by simp⟩
      change 3 * s.waiting.length + s.running.length +
        (s.slots.filter (fun k' => k' ≠ k)).length + 1 ≤ _
      omega
  | lend k lender => exact Nat.le_refl _
  | setReady ready => exact Nat.le_refl _
  | settle => exact Nat.le_refl _

/-- A run that submits nothing works off at least as much as it finishes and surrenders. -/
theorem load_run_le {ls : List (Label κ α)} (hadds : ∀ l ∈ ls, Label.addsNone l = true)
    (hrun : Runs.exec (step limits owner) s ls = some t) :
    t.load + ls.countP Label.works ≤ s.load := by
  induction ls generalizing s with
  | nil =>
      obtain rfl := Option.some.inj hrun
      exact Nat.le_refl _
  | cons l ls ih =>
      obtain ⟨u, hu, hrest⟩ := Option.bind_eq_some_iff.mp hrun
      obtain ⟨hl, rfl⟩ := step_eq_some hu
      have happly : (s.apply owner l).load + (if l.works then 1 else 0) ≤ s.load :=
        load_apply_le hl (hadds l List.mem_cons_self)
      have hsettle : ((s.apply owner l).settle limits owner).load ≤ (s.apply owner l).load :=
        load_settle_le _
      have htail := ih (fun l' hl' => hadds l' (List.mem_cons_of_mem _ hl')) hrest
      rw [List.countP_cons]
      split at htail
      · omega
      · omega

end State

end Slots
