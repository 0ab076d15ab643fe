import Mathlib.Logic.Relation
import Relay.Queue.Basic

/-!
# Relay.Clients.SharedSpot

`resolve_shared_spot` (`relay/clients.py`): the walk along the parent-id chain the
status poller has cached, from a session to its closest tracked ancestor, and the
spot that ancestor offers. `resolveSharedSpot_eq` separates the two.
-/

namespace Relay

/-- `StatusPoller.session_parent`: the parent of a session id on a client machine.
`none` as a value means that the session is not a sub-agent. -/
abbrev ParentCache := OrdDict (String × String) (Option String)

namespace ParentCache

/-- The cache knows `parent` as the parent of `child` on the machine `base`. -/
def IsParent (cache : ParentCache) (base parent child : String) : Prop :=
  cache.get? (base, child) = some (some parent)

/-- No session of the machine is an ancestor of itself. -/
def Acyclic (cache : ParentCache) (base : String) : Prop :=
  ∀ session, ¬ Relation.TransGen (cache.IsParent base) session session

/-- A cache whose parents decrease in some order has no cycle. -/
theorem acyclic_of_rank {cache : ParentCache} {base : String} (rank : String → Nat)
    (h : ∀ parent child, cache.IsParent base parent child → rank parent < rank child) :
    cache.Acyclic base := by
  have hlt : ∀ a b, Relation.TransGen (cache.IsParent base) a b → rank a < rank b := by
    intro a b hab
    induction hab with
    | single hstep => exact h _ _ hstep
    | tail _ hstep ih => exact Nat.lt_trans ih (h _ _ hstep)
  intro session hcycle
  exact Nat.lt_irrefl _ (hlt session session hcycle)

end ParentCache

namespace EndpointQueue

/-- The loop of `resolve_shared_spot`: `depth` iterations from `current`, with the ids
seen so far. -/
def resolveLoop (q : EndpointQueue) (base : String) (cache : ParentCache) (client : String) :
    Nat → String → List String → Option Key
  | 0, _, _ => none
  | depth + 1, current, seen =>
      match cache.get? (base, current) with
      | none => none -- chain not resolved yet; retried next poll
      | some none => none
      | some (some parent) =>
          if parent = "" ∨ parent ∈ seen then none
          else
            match q.sessions.get? (client, parent) with
            | some ancestor =>
                let x := q.objs ancestor
                if x.key ∈ q.spots then some x.key
                else
                  match x.sharedSpotKey with
                  | some shared => if shared ∈ q.spots then some shared else some x.key
                  | none => some x.key
            | none => q.resolveLoop base cache client depth parent (parent :: seen)

/-- `resolve_shared_spot`. -/
def resolveSharedSpot (q : EndpointQueue) (base sessionId : String) (cache : ParentCache)
    (client : String) (depth : Int) : Option Key :=
  q.resolveLoop base cache client depth.toNat sessionId [sessionId]

/-- The closest tracked ancestor the loop finds. -/
def ancestorLoop (q : EndpointQueue) (base : String) (cache : ParentCache) (client : String) :
    Nat → String → List String → Option SessionRef
  | 0, _, _ => none
  | depth + 1, current, seen =>
      match cache.get? (base, current) with
      | none => none
      | some none => none
      | some (some parent) =>
          if parent = "" ∨ parent ∈ seen then none
          else
            match q.sessions.get? (client, parent) with
            | some ancestor => some ancestor
            | none => q.ancestorLoop base cache client depth parent (parent :: seen)

/-- The closest tracked ancestor of a session within the depth cap. -/
def closestAncestor (q : EndpointQueue) (base sessionId : String) (cache : ParentCache)
    (client : String) (depth : Int) : Option SessionRef :=
  q.ancestorLoop base cache client depth.toNat sessionId [sessionId]

/-- The spot a tracked ancestor offers: the one it runs on, or else its own key. -/
def offeredSpot (q : EndpointQueue) (ancestor : SessionRef) : Key :=
  (q.spotKey (q.objs ancestor)).getD (q.objs ancestor).key

theorem resolveLoop_eq (q : EndpointQueue) (base : String) (cache : ParentCache)
    (client : String) (depth : Nat) (current : String) (seen : List String) :
    q.resolveLoop base cache client depth current seen =
      (q.ancestorLoop base cache client depth current seen).map q.offeredSpot := by
  induction depth generalizing current seen with
  | zero => rfl
  | succ depth ih =>
      unfold resolveLoop ancestorLoop
      cases hparent : cache.get? (base, current) with
      | none => rfl
      | some entry =>
          cases entry with
          | none => rfl
          | some parent =>
              dsimp only
              split
              · rfl
              · cases hanc : q.sessions.get? (client, parent) with
                | none => exact ih parent (parent :: seen)
                | some ancestor =>
                    unfold offeredSpot spotKey
                    by_cases hown : (q.objs ancestor).key ∈ q.spots
                    · simp [hown]
                    · cases hshared : (q.objs ancestor).sharedSpotKey with
                      | none => simp [hown, hshared]
                      | some shared =>
                          by_cases hin : shared ∈ q.spots <;>
                            simp [hown, hshared, hin, Option.filter]

/-- `resolve_shared_spot` answers what the closest tracked ancestor offers. -/
theorem resolveSharedSpot_eq (q : EndpointQueue) (base sessionId : String)
    (cache : ParentCache) (client : String) (depth : Int) :
    q.resolveSharedSpot base sessionId cache client depth =
      (q.closestAncestor base sessionId cache client depth).map q.offeredSpot :=
  q.resolveLoop_eq base cache client depth.toNat sessionId [sessionId]

end EndpointQueue

end Relay
