import Relay.Library.Tally
import Relay.Queue.Snapshot

/-!
# Relay.App.Unknown

`UnknownTracker` (`relay/queue.py`): the clients whose requests have no endpoint of their own.

**The tracker knows what there is to know.** An entry is a summary of what a client sent since a
prune last found it silent (`Exact`); recording a request and pruning keep this.
-/

namespace Relay

open Tally

/-- A request as `record` is told of it, at a reading of the clock. -/
structure UnknownRequest where
  method : String
  path : String
  targetUrl : String
  at' : Time
  deriving DecidableEq, Repr

/-- A client of the tracker: its address and its user agent. -/
abbrev ClientKey := String × String

/-- An entry of the tracker. -/
structure UnknownEntry where
  ip : String
  ua : String
  method : String
  path : String
  targetUrl : String
  firstAt : Time
  lastAt : Time
  count : Nat
  deriving DecidableEq, Repr

/-- A row of `snapshot`. -/
structure UnknownRow where
  id : String
  method : String
  path : String
  targetUrl : String
  requests : Nat
  lastActivitySecondsAgo : ℚ
  deriving DecidableEq, Repr

namespace UnknownEntry

/-- The entry of a client that is not known yet. -/
def new (key : ClientKey) (s : UnknownRequest) : UnknownEntry where
  ip := key.1
  ua := key.2
  method := s.method
  path := s.path
  targetUrl := s.targetUrl
  firstAt := s.at'
  lastAt := s.at'
  count := 1

/-- The entry after one more request. -/
def again (entry : UnknownEntry) (s : UnknownRequest) : UnknownEntry :=
  { entry with
    method := s.method
    path := s.path
    targetUrl := s.targetUrl
    lastAt := s.at'
    count := entry.count + 1 }

/-- The row of an entry. -/
def row (now : Time) (entry : UnknownEntry) : UnknownRow where
  id := entry.ip ++ " (" ++ entry.ua ++ ")"
  method := entry.method
  path := entry.path
  targetUrl := entry.targetUrl
  requests := entry.count
  lastActivitySecondsAgo := roundTenth (now - entry.lastAt)

end UnknownEntry

/-- `UnknownTracker`. -/
structure UnknownTracker where
  entries : OrdDict ClientKey UnknownEntry

/-- The key of a client: `(ip, user_agent or "-")`. -/
def clientKey (ip userAgent : String) : ClientKey :=
  (ip, if userAgent = "" then "-" else userAgent)

namespace UnknownTracker

/-- `UnknownTracker.__init__`. -/
def init : UnknownTracker := ⟨.empty⟩

variable (tracker : UnknownTracker)

/-- `record`. -/
def record (ip userAgent : String) (s : UnknownRequest) : UnknownTracker :=
  let key := clientKey ip userAgent
  match tracker.entries.get? key with
  | none => ⟨tracker.entries.insert key (.new key s)⟩
  | some entry => ⟨tracker.entries.insert key (entry.again s)⟩

/-- The keys `prune` collects: the clients that have been silent for `expiry`. -/
def silent (now expiry : Time) : List ClientKey :=
  (tracker.entries.entries.filter (fun p => decide (expiry ≤ now - p.2.lastAt))).map Prod.fst

/-- `prune`. -/
def prune (now expiry : Time) : UnknownTracker :=
  ⟨(tracker.silent now expiry).foldl OrdDict.erase tracker.entries⟩

/-- `snapshot`: the latest activity first. The sort is stable. -/
def snapshot (now : Time) : List UnknownRow :=
  (tracker.entries.values.map (UnknownEntry.row now)).mergeSort fun r r' =>
    decide (r.lastActivitySecondsAgo ≤ r'.lastActivitySecondsAgo)

variable {tracker} {history : List (Event ClientKey UnknownRequest Time)} {expiry : Time}

theorem get?_record (ip userAgent : String) (s : UnknownRequest) (k : ClientKey) :
    (tracker.record ip userAgent s).entries.get? k =
      if k = clientKey ip userAgent then
        some (((tracker.entries.get? k).map fun entry => entry.again s).getD (.new k s))
      else tracker.entries.get? k := by
  unfold record
  dsimp only
  by_cases hk : k = clientKey ip userAgent
  · subst hk
    cases hentry : tracker.entries.get? (clientKey ip userAgent) <;> simp
  · cases tracker.entries.get? (clientKey ip userAgent) <;>
      simp [OrdDict.get?_insert_of_ne _ _ hk, hk]

theorem mem_silent {now : Time} {k : ClientKey} :
    k ∈ tracker.silent now expiry ↔
      ∃ entry, tracker.entries.get? k = some entry ∧ expiry ≤ now - entry.lastAt := by
  simp only [silent, List.mem_map, List.mem_filter, decide_eq_true_eq, Prod.exists,
    OrdDict.get?_eq_some_iff, exists_and_right, exists_eq_right]

theorem get?_prune (now : Time) (k : ClientKey) :
    (tracker.prune now expiry).entries.get? k =
      (tracker.entries.get? k).filter (fun entry => !decide (expiry ≤ now - entry.lastAt)) := by
  unfold prune
  rw [OrdDict.get?_foldl_erase]
  cases hentry : tracker.entries.get? k with
  | none => simp
  | some entry =>
      rcases le_or_gt expiry (now - entry.lastAt) with hsilent | hsilent
      · simp [mem_silent, hentry, hsilent, Option.filter]
      · simp [mem_silent, hentry, hsilent.not_ge, Option.filter]

/-- The rows come in the order of the latest activity. -/
theorem pairwise_snapshot (tracker : UnknownTracker) (now : Time) :
    (tracker.snapshot now).Pairwise
      (fun r r' => r.lastActivitySecondsAgo ≤ r'.lastActivitySecondsAgo) := by
  unfold snapshot
  have hsorted : ((tracker.entries.values.map (UnknownEntry.row now)).mergeSort fun r r' =>
      decide (r.lastActivitySecondsAgo ≤ r'.lastActivitySecondsAgo)).Pairwise fun r r' =>
      decide (r.lastActivitySecondsAgo ≤ r'.lastActivitySecondsAgo) = true := by
    refine List.pairwise_mergeSort (fun a b c hab hbc => ?_) (fun a b => ?_) _
    · exact decide_eq_true (le_trans (of_decide_eq_true hab) (of_decide_eq_true hbc))
    · rcases le_total a.lastActivitySecondsAgo b.lastActivitySecondsAgo with h | h <;> simp [h]
  exact hsorted.imp of_decide_eq_true

theorem perm_snapshot (tracker : UnknownTracker) (now : Time) :
    (tracker.snapshot now).Perm (tracker.entries.values.map (UnknownEntry.row now)) :=
  List.mergeSort_perm _ _

end UnknownTracker

/-! ### What an entry should be -/

/-- A client that was last seen as `s` has been silent for `expiry`. -/
def UnknownRequest.stale (expiry now : Time) (s : UnknownRequest) : Bool :=
  decide (expiry ≤ now - s.at')

/-- The summary of what was seen of a client. -/
def UnknownEntry.summary (key : ClientKey) (seen : List UnknownRequest) : Option UnknownEntry :=
  match seen with
  | [] => none
  | first :: rest =>
      let last := rest.getLastD first
      some
        { ip := key.1
          ua := key.2
          method := last.method
          path := last.path
          targetUrl := last.targetUrl
          firstAt := first.at'
          lastAt := last.at'
          count := rest.length + 1 }

theorem UnknownEntry.summary_snoc (key : ClientKey) (seen : List UnknownRequest)
    (s : UnknownRequest) :
    summary key (seen ++ [s]) =
      some (((summary key seen).map fun entry => entry.again s).getD (.new key s)) := by
  cases seen with
  | nil => rfl
  | cons first rest => simp [summary, again]

/-- The entry of a client was last active when the client was last seen. -/
theorem UnknownEntry.summary_lastAt {key : ClientKey} {seen : List UnknownRequest}
    {entry : UnknownEntry} (h : summary key seen = some entry) :
    ∃ s, seen.getLast? = some s ∧ entry.lastAt = s.at' := by
  cases seen with
  | nil => exact absurd h (by simp [summary])
  | cons first rest =>
      obtain rfl := Option.some.inj h
      exact ⟨rest.getLastD first, by rw [List.getLast?_cons, List.getLastD_eq_getLast?], rfl⟩

theorem UnknownEntry.summary_eq_none {key : ClientKey} {seen : List UnknownRequest} :
    summary key seen = none ↔ seen = [] := by
  cases seen <;> simp [summary]

namespace UnknownTracker

/-- Every entry is the summary of what its client sent since a prune last found it silent. -/
def Exact (tracker : UnknownTracker) (expiry : Time)
    (history : List (Event ClientKey UnknownRequest Time)) : Prop :=
  ∀ k, tracker.entries.get? k =
    UnknownEntry.summary k (since (UnknownRequest.stale expiry) k history)

namespace Exact

variable {tracker : UnknownTracker} {history : List (Event ClientKey UnknownRequest Time)}
  {expiry : Time}

theorem init (expiry : Time) : Exact .init expiry [] := fun _ => rfl

theorem record (h : tracker.Exact expiry history) (ip userAgent : String) (s : UnknownRequest) :
    (tracker.record ip userAgent s).Exact expiry
      (history ++ [.seen (clientKey ip userAgent) s]) := by
  intro k
  rw [get?_record, since_snoc_seen]
  by_cases hk : k = clientKey ip userAgent
  · rw [if_pos hk, if_pos hk.symm, UnknownEntry.summary_snoc, h k]
  · rw [if_neg hk, if_neg (Ne.symm hk)]
    exact h k

theorem prune (h : tracker.Exact expiry history) (now : Time) :
    (tracker.prune now expiry).Exact expiry (history ++ [.swept now]) := by
  intro k
  rw [get?_prune, since_snoc_swept, h k]
  cases hentry : UnknownEntry.summary k (since (UnknownRequest.stale expiry) k history) with
  | none =>
      rw [UnknownEntry.summary_eq_none.mp hentry]
      rfl
  | some entry =>
      obtain ⟨s, hlast, hat⟩ := UnknownEntry.summary_lastAt hentry
      rw [hlast, Option.any_some, UnknownRequest.stale, ← hat]
      by_cases hsilent : expiry ≤ now - entry.lastAt
      · simp [hsilent, UnknownEntry.summary]
      · simp [hsilent, hentry]

end Exact

end UnknownTracker

end Relay
