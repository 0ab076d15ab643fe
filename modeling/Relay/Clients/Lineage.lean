import Relay.Clients.SharedSpot
import Relay.Clients.StatusPoller
import Relay.Library.Ancestry

/-!
# Relay.Clients.Lineage

**What the parent-id cache knows of a client's sessions.** `Lineage` is the parent relation a
client has, and a poller is `Truthful` when its caches hold nothing else. The walk of
`resolve_shared_spot` is then a climb along a part of the lineage, and it finds the closest
tracked ancestor exactly when the parents of all levels below are cached
(`closestAncestor_eq_some_iff`).
-/

namespace Relay

/-- The parent relation of the sessions of a client machine. -/
structure Lineage where
  parent : String → Option String
  acyclic : Ancestry.Acyclic parent
  named : ∀ sessionId, parent sessionId ≠ some ""

/-! ### The cached part of a lineage -/

namespace ParentCache

/-- The parent a cache knows. -/
def parentOn (cache : ParentCache) (base sessionId : String) : Option String :=
  (cache.get? (base, sessionId)).join.filter (fun parent => decide (parent ≠ ""))

variable {cache : ParentCache} {base sessionId parent : String}

theorem parentOn_eq_some : cache.parentOn base sessionId = some parent ↔
    cache.get? (base, sessionId) = some (some parent) ∧ parent ≠ "" := by
  unfold parentOn
  rw [Option.filter_eq_some_iff, Option.join_eq_some_iff, decide_eq_true_iff]

end ParentCache

namespace Poller

theorem mem_learn_sessionParent {P : Poller} {base sessionId : String}
    {info : String × Option String} {k : String × String} :
    k ∈ (P.learn base sessionId info).sessionParent ↔
      k = (base, sessionId) ∨ k ∈ P.sessionParent :=
  OrdDict.mem_insert

/-- The caches hold what the clients have answered: a parent is the one of the lineage, and a
directory came with a parent. -/
structure Truthful (P : Poller) (lineage : String → Lineage) : Prop where
  parent_eq : ∀ base sessionId parent, P.sessionParent.get? (base, sessionId) = some parent →
    parent = (lineage base).parent sessionId
  known : ∀ k, k ∈ P.sessionDir → k ∈ P.sessionParent

namespace Truthful

variable {P : Poller} {lineage : String → Lineage} {base sessionId directory : String}

theorem start (hdir : P.sessionDir = .empty) (hparent : P.sessionParent = .empty) :
    P.Truthful lineage where
  parent_eq := fun _ _ _ h => absurd h (by simp [hparent])
  known := fun k h => absurd h (by simp [hdir])

theorem stamp (h : P.Truthful lineage) (base : String) (now : Time) :
    (P.stamp base now).Truthful lineage := ⟨h.parent_eq, h.known⟩

theorem learn (h : P.Truthful lineage) (base sessionId directory : String) :
    (P.learn base sessionId (directory, (lineage base).parent sessionId)).Truthful lineage where
  parent_eq := by
    intro base' sessionId' parent hget
    change (P.sessionParent.insert (base, sessionId) _).get? (base', sessionId') = some parent
      at hget
    rw [OrdDict.get?_insert] at hget
    split at hget
    · rename_i hkey
      obtain ⟨rfl, rfl⟩ := Prod.mk.inj hkey
      exact (Option.some.inj hget).symm
    · exact h.parent_eq base' sessionId' parent hget
  known := fun k hk =>
    mem_learn_sessionParent.mpr ((OrdDict.mem_insert.mp hk).imp_right (h.known k))

theorem forget (h : P.Truthful lineage) (base sessionId : String) :
    (P.forget base sessionId).Truthful lineage where
  parent_eq := by
    intro base' sessionId' parent hget
    change (P.sessionParent.erase (base, sessionId)).get? (base', sessionId') = some parent at hget
    rw [OrdDict.get?_erase] at hget
    split at hget
    · exact absurd hget (by simp)
    · exact h.parent_eq base' sessionId' parent hget
  known := fun k hk => OrdDict.mem_erase.mpr
    ((OrdDict.mem_erase.mp hk).imp_right (h.known k))

theorem prune (h : P.Truthful lineage) (base : String) (live : List String) :
    (P.prune base live).Truthful lineage := by
  unfold Poller.prune
  generalize P.sessionDir.keys.filter (fun k => decide (k.1 = base ∧ k.2 ∉ live)) = gone
  induction gone generalizing P with
  | nil => exact h
  | cons k rest ih => exact ih (h.forget k.1 k.2)

/-- The cached parents are a part of the lineage. -/
theorem part (h : P.Truthful lineage) (base : String) :
    Ancestry.Part (P.sessionParent.parentOn base) (lineage base).parent := by
  intro sessionId parent hparent
  exact (h.parent_eq base sessionId (some parent) (ParentCache.parentOn_eq_some.mp hparent).1).symm

/-- A session that has a parent is in the cache when its parent is known. -/
theorem isSome_parentOn (h : P.Truthful lineage) {parent : String}
    (hparent : (lineage base).parent sessionId = some parent) :
    (P.sessionParent.parentOn base sessionId).isSome = true ↔
      (base, sessionId) ∈ P.sessionParent := by
  constructor
  · intro hsome
    obtain ⟨parent', hparent'⟩ := Option.isSome_iff_exists.mp hsome
    exact OrdDict.mem_of_get? (ParentCache.parentOn_eq_some.mp hparent').1
  · intro hmem
    obtain ⟨cached, hcached⟩ := OrdDict.mem_iff_get?.mp hmem
    rw [h.parent_eq base sessionId cached hcached, hparent] at hcached
    have hnamed : parent ≠ "" := by
      rintro rfl
      exact (lineage base).named sessionId hparent
    exact Option.isSome_iff_exists.mpr ⟨parent, ParentCache.parentOn_eq_some.mpr ⟨hcached, hnamed⟩⟩

end Truthful

end Poller

/-! ### The walk -/

namespace EndpointQueue

variable {q : EndpointQueue} {P : Poller} {lineage : String → Lineage}
  {base client sessionId : String} {depth : Int} {anc : SessionRef}

/-- The session is tracked. -/
def Tracks (q : EndpointQueue) (client sessionId : String) : Prop :=
  (q.sessions.get? (client, sessionId)).isSome = true

/-- In a cache without cycles the walk is a climb: it never comes to an id it has seen. -/
theorem ancestorLoop_eq_climb (cache : ParentCache)
    (hacyclic : Ancestry.Acyclic (cache.parentOn base)) (depth : Nat) (current : String)
    (seen : List String)
    (hseen : ∀ id ∈ seen, ∃ n, Ancestry.up (cache.parentOn base) n id = some current) :
    q.ancestorLoop base cache client depth current seen =
      Ancestry.climb (cache.parentOn base) (fun id => q.sessions.get? (client, id)) depth
        current := by
  induction depth generalizing current seen with
  | zero => rfl
  | succ depth ih =>
      unfold ancestorLoop Ancestry.climb
      cases hcached : cache.get? (base, current) with
      | none => simp [ParentCache.parentOn, hcached]
      | some cached =>
          cases cached with
          | none => simp [ParentCache.parentOn, hcached]
          | some parent =>
              by_cases hempty : parent = ""
              · simp [ParentCache.parentOn, hcached, hempty, Option.filter]
              · have hparent : cache.parentOn base current = some parent :=
                  ParentCache.parentOn_eq_some.mpr ⟨hcached, hempty⟩
                -- all ids seen are below the parent
                have hbelow : ∀ id ∈ parent :: seen,
                    ∃ n, Ancestry.up (cache.parentOn base) n id = some parent := by
                  intro id hid
                  rcases List.mem_cons.mp hid with rfl | hid
                  · exact ⟨0, rfl⟩
                  · obtain ⟨n, hn⟩ := hseen id hid
                    refine ⟨n + 1, ?_⟩
                    rw [Ancestry.up_add, hn, Option.bind_some]
                    exact Ancestry.up_succ_eq_some.mpr ⟨parent, hparent, rfl⟩
                have hfresh : parent ∉ seen := by
                  intro hmem
                  obtain ⟨n, hn⟩ := hseen parent hmem
                  refine hacyclic n current (Ancestry.up_succ_eq_some.mpr ⟨parent, hparent, hn⟩)
                rw [hparent]
                dsimp only
                rw [if_neg (not_or.mpr ⟨hempty, hfresh⟩)]
                cases q.sessions.get? (client, parent) with
                | some anc => rfl
                | none => exact ih parent (parent :: seen) hbelow

/-- The walk finds the closest tracked ancestor, when the cache knows the way. -/
theorem closestAncestor_eq_some_iff (h : P.Truthful lineage) :
    q.closestAncestor base sessionId P.sessionParent client depth = some anc ↔
      ∃ k a, k ≤ depth.toNat ∧
        Ancestry.ClosestAt (lineage base).parent (q.Tracks client) k sessionId a ∧
        q.sessions.get? (client, a) = some anc ∧
        ∀ j < k, ∀ id, Ancestry.up (lineage base).parent j sessionId = some id →
          (base, id) ∈ P.sessionParent := by
  have hacyclic := (h.part base).acyclic (lineage base).acyclic
  unfold closestAncestor
  rw [ancestorLoop_eq_climb P.sessionParent hacyclic depth.toNat sessionId [sessionId]
    (fun id hid => ⟨0, by rw [List.mem_singleton.mp hid]; rfl⟩), Ancestry.climb_eq_some_iff]
  -- below the closest ancestor everybody has a parent, so to know it is to have it cached
  have hknown : ∀ {k a}, Ancestry.ClosestAt (lineage base).parent (q.Tracks client) k sessionId a →
      ∀ j < k, ∀ id, Ancestry.up (lineage base).parent j sessionId = some id →
        ((P.sessionParent.parentOn base id).isSome = true ↔ (base, id) ∈ P.sessionParent) := by
    intro k a hclosest j hj id hid
    obtain ⟨id', hid', hrest⟩ := Ancestry.exists_up_of_le hclosest.up_eq (Nat.le_of_lt hj)
    obtain rfl : id = id' := Option.some.inj (hid.symm.trans hid')
    obtain ⟨n, hn⟩ := Nat.exists_eq_succ_of_ne_zero (Nat.sub_ne_zero_of_lt hj)
    rw [hn] at hrest
    obtain ⟨parent, hparent, -⟩ := Ancestry.up_succ_eq_some.mp hrest
    exact h.isSome_parentOn hparent
  constructor
  · rintro ⟨k, a, hk, hclosest, hanc⟩
    obtain ⟨hclosest, hall⟩ := (Ancestry.closestAt_part_iff (h.part base)).mp hclosest
    exact ⟨k, a, hk, hclosest, hanc, fun j hj id hid =>
      (hknown hclosest j hj id hid).mp (hall j hj id hid)⟩
  · rintro ⟨k, a, hk, hclosest, hanc, hall⟩
    refine ⟨k, a, hk, (Ancestry.closestAt_part_iff (h.part base)).mpr ⟨hclosest, ?_⟩, hanc⟩
    exact fun j hj id hid => (hknown hclosest j hj id hid).mpr (hall j hj id hid)

end EndpointQueue

end Relay
