import Relay.Endpoint.Balance
import Relay.Queue.Coverage

/-!
# Relay.Endpoint.Lifetime

**Does a connection keep its spot?** A queued WebSocket runs on a spot from the moment
`_hold_ws_spot` grants it until the connection is closed. But spots belong to sessions:
`_release_ws_spot` drops the spot of the session whatever else of it is in flight, and a
`tick` surrenders the spot of an idle session that a sub-agent's connection runs on.

`KeepsConnections` excludes just these steps; `lifetime_of_run` shows that in a run
without them no open connection loses the spot it was granted, and that the close of a
connection takes a spot away only when its session has nothing else in flight.
-/

namespace Relay

open Runs

namespace EndpointQueue

variable {q q' : EndpointQueue} {s : SessionRef} {key k : Key} {now : Time}

/-! ### Spots that stay -/

theorem promote_spots_mono (hk : k ∈ q.spots) (now : Time) (e : EntryRef) :
    k ∈ (q.promote now e).spots := by
  rw [promote_spots]
  split
  · exact OrdDict.mem_insert.mpr (Or.inr hk)
  · exact hk

theorem tryPromote_spots_mono (hk : k ∈ q.spots) (now : Time) : k ∈ (q.tryPromote now).spots :=
  tryPromote_induction (I := fun q => k ∈ q.spots)
    (fun _ e hq _ => promote_spots_mono hq now e) hk

theorem abandon_spots (q : EndpointQueue) (e : EntryRef) : (q.abandon e).spots = q.spots := by
  unfold abandon
  split <;> rfl

theorem holdWsSpot_spots_mono (hk : k ∈ q.spots) (h : q.holdWsSpot s now = some q') :
    k ∈ q'.spots := by
  rcases holdWsSpot_cases h with ⟨-, rfl⟩ | ⟨-, -, rfl⟩
  · exact hk
  · exact OrdDict.mem_insert.mpr (Or.inr hk)

/-- A connection that is given a spot runs on one. -/
theorem spotKey_of_holdWsSpot (h : q.holdWsSpot s now = some q') :
    (q'.spotKey (q'.objs s)).isSome = true := by
  have hkey : ((q.objs s).connected).key = (q.objs s).key := rfl
  rcases holdWsSpot_cases h with ⟨hspot, rfl⟩ | ⟨-, -, rfl⟩
  · rw [countWs_objs, Heap.modify_self]
    exact hspot
  · -- the session's own spot, which it has just taken
    have hown : (((q.acquireSpot s now).countWs s).objs s).key = (q.objs s).key := by
      rw [countWs_objs, acquireSpot_objs, Heap.modify_modify, Heap.modify_self]
      rfl
    have hmem : (((q.acquireSpot s now).countWs s).objs s).key ∈
        ((q.acquireSpot s now).countWs s).spots := by
      rw [hown]
      exact OrdDict.mem_insert.mpr (Or.inl rfl)
    simp [spotKey, hmem]

/-- The close of a connection takes no other spot away than the one of its session. -/
theorem releaseWsSpot_spots (hk : k ∈ q.spots) (hne : k ≠ (q.objs s).key) :
    k ∈ (q.releaseWsSpot s now).spots := by
  rcases releaseWsSpot_cases q s now with ⟨-, heq⟩ | ⟨-, heq⟩
  · rw [heq]
    refine tryPromote_spots_mono ?_ now
    have hkey : ((q.endWs s).objs s).key = (q.objs s).key := by
      rw [endWs_objs]
      exact Heap.modify_proj Session.key _ _ Session.disconnected (fun _ => rfl) s
    show k ∈ q.spots.erase ((q.endWs s).objs s).key
    rw [hkey]
    exact OrdDict.mem_erase.mpr ⟨hne, hk⟩
  · rw [heq]
    exact hk

/-- A tick keeps a spot that none of its visits surrenders. -/
theorem tick_spots {promoteAt : Key → Time} (hk : k ∈ q.spots)
    (hkeeps : ∀ v ∈ q.visits now promoteAt, v.1.surrenders v.2.2 now = true → v.2.1 ≠ k) :
    k ∈ (q.tick now promoteAt).1.spots := by
  refine tick_induction (I := fun q => k ∈ q.spots)
    (P := fun q key s => q.surrenders s now = true → key ≠ k) ?_ hkeeps hk
  intro q key s hq _ hkeep
  rcases visit_cases q now (promoteAt key) key s with ⟨hsur, heq⟩ | ⟨-, -, -, -, heq⟩ | ⟨-, -, heq⟩
  · rw [heq]
    exact tryPromote_spots_mono (OrdDict.mem_erase.mpr ⟨(hkeep hsur).symm, hq⟩) _
  · rw [heq]
    exact hq
  · rw [heq]
    exact hq

end EndpointQueue

namespace Endpoint

/-! ### Open connections and their spots -/

/-- An open connection: its task, its session, and the spot it was granted. -/
structure Connection where
  task : Nat
  session : SessionRef
  spot : Key
  deriving DecidableEq, Repr

/-- An endpoint with the spots it has granted to connections, each with the task of the
connection. -/
structure Watched where
  endpoint : Endpoint
  granted : List (Nat × Key)

namespace Watched

/-- A new endpoint. -/
def init (cfg : EndpointConfig) : Watched := ⟨.init cfg, []⟩

/-- The session of an open connection. -/
def tunnelOf (E : Endpoint) (i : Nat) : Option SessionRef :=
  (E.tasks[i]?).bind (fun t => t.phase.tunnel?)

/-- The spot a step has granted, when `_hold_ws_spot` has just returned `True`: the one the
session of the connection runs on. -/
def grantedBy (E : Endpoint) : Op → Option (Nat × Key)
  | .resume i _ => (tunnelOf E i).bind (fun s => (E.queue.spotKey (E.queue.objs s)).map (i, ·))
  | _ => none

/-- One step of the endpoint, with the spot it grants. -/
def step (w : Watched) (op : Op) : Option Watched :=
  (w.endpoint.step op).map (fun E => ⟨E, w.granted ++ (grantedBy E op).toList⟩)

variable (w : Watched)

/-- The open connections. -/
def connections : List Connection :=
  w.granted.filterMap (fun g => (tunnelOf w.endpoint g.1).map (fun s => ⟨g.1, s, g.2⟩))

/-- Every open connection has been granted a spot, and the spot is held. -/
def KeepsSpots : Prop :=
  (∀ i s, tunnelOf w.endpoint i = some s → ∃ c ∈ w.connections, c.task = i ∧ c.session = s) ∧
    ∀ c ∈ w.connections, c.spot ∈ w.endpoint.queue.spots

/-- Nothing but the connection of task `i` is in flight on the session `key`: no request,
and no other connection. -/
def AloneOn (i : Nat) (key : Key) : Prop :=
  (∀ e ∈ w.endpoint.queue.running, w.endpoint.queue.keyOf e ≠ key) ∧
    ∀ j s, tunnelOf w.endpoint j = some s → (w.endpoint.queue.objs s).key = key → j = i

/-- The step takes no spot away from under a connection: a connection that closes while its
session holds a spot is the only thing in flight that the session counts, and no connection
of another session runs on the spot; a tick surrenders no spot that a connection of another
session object runs on; and no spot is released by hand. -/
def KeepsConnections : Op → Prop
  | .resume i _ =>
      ∀ s ∈ tunnelOf w.endpoint i,
        (w.endpoint.queue.objs s).key ∈ w.endpoint.queue.spots →
        (∀ s' < w.endpoint.queue.objs.next,
          (w.endpoint.queue.objs s').key = (w.endpoint.queue.objs s).key →
          (w.endpoint.queue.objs s').inflight = if s' = s then 1 else 0) ∧
        ∀ c ∈ w.connections, c.task ≠ i → c.spot ≠ (w.endpoint.queue.objs s).key
  | .manage (.tick now promoteAt) =>
      ∀ v ∈ w.endpoint.queue.visits now promoteAt, v.1.surrenders v.2.2 now = true →
        ∀ c ∈ w.connections, c.session ≠ v.2.2 → c.spot ≠ v.2.1
  | .manage (.releaseSession ..) => False
  | .arrive _ | .manage _ => True

end Watched

/-! ### What a step does to the open connections -/

open Watched (tunnelOf)

variable {E E' : Endpoint} {cfg : EndpointConfig} {i : Nat} {t : Task} {q : EndpointQueue}
  {a : Int} {phase : Phase}

theorem tunnelOf_of_task (ht : E.tasks[i]? = some t) : tunnelOf E i = t.phase.tunnel? := by
  simp [tunnelOf, ht]

theorem tunnelOf_eq_some {s : SessionRef} (h : tunnelOf E i = some s) :
    ∃ t, E.tasks[i]? = some t ∧ t.phase = .tunnel s := by
  obtain ⟨t, ht, htunnel⟩ := Option.bind_eq_some_iff.mp h
  refine ⟨t, ht, ?_⟩
  cases hphase : t.phase with
  | tunnel s' =>
      rw [hphase] at htunnel
      rw [Option.some.inj htunnel]
  | _ =>
      rw [hphase] at htunnel
      exact absurd htunnel (by simp [Phase.tunnel?])

theorem tunnelOf_advance_self (ht : E.tasks[i]? = some t) :
    tunnelOf (E.advance i t q a phase) i = phase.tunnel? := by
  have hlt : i < E.tasks.length := (List.getElem?_eq_some_iff.mp ht).1
  simp [tunnelOf, advance, hlt, Task.moveTo]

theorem tunnelOf_advance_of_ne {j : Nat} (hne : j ≠ i) :
    tunnelOf (E.advance i t q a phase) j = tunnelOf E j := by
  simp [tunnelOf, advance, List.getElem?_set_ne (Ne.symm hne)]

/-- A task that arrives is no connection yet. -/
theorem tunnelOf_arrive (request : Request) (j : Nat) :
    tunnelOf { E with tasks := E.tasks ++ [{ request := request }] } j = tunnelOf E j := by
  unfold tunnelOf
  rcases Nat.lt_trichotomy j E.tasks.length with hlt | rfl | hgt
  · rw [List.getElem?_append_left hlt]
  · simp [Phase.tunnel?]
  · rw [List.getElem?_eq_none (by simpa using Nat.succ_le_of_lt hgt),
      List.getElem?_eq_none (Nat.le_of_lt hgt)]

/-- Only the close of a connection takes spots away. -/
theorem Move.spots_mono (h : Move E t q a phase) (hclosed : t.phase.tunnel? = none) {k : Key}
    (hk : k ∈ E.queue.spots) : k ∈ q.spots := by
  have hpass : ∀ {q₀ q : EndpointQueue} {s : SessionRef} {phase : Phase}, k ∈ q₀.spots →
      SpotPass q₀ s q phase → k ∈ q.spots := by
    intro q₀ q s phase hk₀ hpass
    cases hpass with
    | granted hhold => exact EndpointQueue.holdWsSpot_spots_mono hk₀ hhold
    | refused => exact hk₀
    | waits hfull => exact hk₀
  have hpromoted : ∀ (q : EndpointQueue) now, q.spots = E.queue.spots →
      k ∈ (q.tryPromote now).spots := by
    intro q now hspots
    exact EndpointQueue.tryPromote_spots_mono (hspots ▸ hk) now
  have hcreated : ∀ r now, k ∈ (E.queue.getOrCreateSession r now).2.spots := by
    intro r now
    rw [EndpointQueue.getOrCreateSession_spots]
    exact hk
  cases h with
  | begin hidle => exact hcreated _ _
  | join hphase hhead => exact hpromoted _ _ rfl
  | abandon hphase hdone hreply =>
      rw [EndpointQueue.abandon_spots]
      exact hk
  | leave hphase hdone hreply => exact hpromoted _ _ rfl
  | finish hphase => exact hpromoted _ _ rfl
  | connect hidle hspot => exact hpass (hcreated _ _) hspot
  | retry hphase hspot => exact hpass hk hspot
  | disconnect hphase =>
      rw [hphase] at hclosed
      exact absurd hclosed (by simp [Phase.tunnel?])
  | _ => exact hk

/-- A connection that is opened runs on a held spot. -/
theorem Move.spotKey_of_tunnel (h : Move E t q a phase) {s : SessionRef}
    (htunnel : phase.tunnel? = some s) : ∃ k, q.spotKey (q.objs s) = some k := by
  have hpass : ∀ {q₀ : EndpointQueue} {s' : SessionRef}, SpotPass q₀ s' q phase →
      ∃ k, q.spotKey (q.objs s) = some k := by
    intro q₀ s' hpass
    cases hpass with
    | granted hhold =>
        obtain rfl := Option.some.inj htunnel
        exact Option.isSome_iff_exists.mp (EndpointQueue.spotKey_of_holdWsSpot hhold)
    | refused => exact absurd htunnel (by simp [Phase.tunnel?])
    | waits hfull => exact absurd htunnel (by simp [Phase.tunnel?])
  cases h with
  | idle hidle hidle' =>
      rw [Phase.isIdle.tunnel? hidle'] at htunnel
      exact absurd htunnel (by simp)
  | join hphase hhead =>
      rw [← hhead, tunnel?_slotHead] at htunnel
      exact absurd htunnel (by simp)
  | head hphase =>
      rw [tunnel?_slotHead] at htunnel
      exact absurd htunnel (by simp)
  | forward hidle hphase =>
      rcases hphase with rfl | rfl | rfl <;> exact absurd htunnel (by simp [Phase.tunnel?])
  | connect hidle hspot => exact hpass hspot
  | retry hphase hspot => exact hpass hspot
  | _ => exact absurd htunnel (by simp [Phase.tunnel?])

/-- The only step of an open connection is its close. -/
theorem Move.closes (h : Move E t q a phase) {s : SessionRef} (htunnel : t.phase = .tunnel s) :
    phase = .ended (.closed none) ∧ ∃ promoteAt, q = E.queue.releaseWsSpot s promoteAt := by
  have hnot : t.phase.isIdle = false := by rw [htunnel]; rfl
  cases h with
  | disconnect hphase =>
      rw [hphase] at htunnel
      obtain rfl := Phase.tunnel.inj htunnel
      exact ⟨rfl, _, rfl⟩
  | idle hidle _ | begin hidle | forward hidle _ | connect hidle _ =>
      exact absurd (hnot.symm.trans hidle) Bool.false_ne_true
  | fail hphase | join hphase _ | head hphase | sleep hphase | abandon hphase _ _
  | leave hphase _ _ | finish hphase | finishForward hphase | finishTunnel hphase
  | retry hphase _ =>
      rw [hphase] at htunnel
      cases htunnel

/-! ### The invariant -/

namespace Watched

variable {w w' : Watched}

/-- The endpoint is balanced, the open connections have been granted spots, and the spots
are held. A granted spot belongs to a connection that is open or closed. -/
structure Held (cfg : EndpointConfig) (w : Watched) : Prop where
  balanced : Balanced cfg w.endpoint
  known : ∀ i s, tunnelOf w.endpoint i = some s → ∃ k, (i, k) ∈ w.granted
  keeps : ∀ g ∈ w.granted, ∀ s, tunnelOf w.endpoint g.1 = some s →
    g.2 ∈ w.endpoint.queue.spots
  started : ∀ g ∈ w.granted, ∃ t, w.endpoint.tasks[g.1]? = some t ∧
    (t.phase.tunnel?.isSome = true ∨ ∃ reply, t.phase = .ended reply)

theorem Held.init (cfg : EndpointConfig) : Held cfg (Watched.init cfg) where
  balanced := .init cfg
  known := fun i s h => absurd h (by simp [tunnelOf, Watched.init, Endpoint.init])
  keeps := fun _ hg => absurd hg List.not_mem_nil
  started := fun _ hg => absurd hg List.not_mem_nil

theorem mem_connections {g : Nat × Key} {s : SessionRef} (hg : g ∈ w.granted)
    (hs : tunnelOf w.endpoint g.1 = some s) : ⟨g.1, s, g.2⟩ ∈ w.connections :=
  List.mem_filterMap.mpr ⟨g, hg, by rw [hs]; rfl⟩

theorem Held.keepsSpots (h : Held cfg w) : w.KeepsSpots := by
  refine ⟨fun i s hs => ?_, fun c hc => ?_⟩
  · obtain ⟨k, hk⟩ := h.known i s hs
    exact ⟨⟨i, s, k⟩, mem_connections hk hs, rfl, rfl⟩
  · obtain ⟨g, hg, hmap⟩ := List.mem_filterMap.mp hc
    obtain ⟨s, hs, rfl⟩ := Option.map_eq_some_iff.mp hmap
    exact h.keeps g hg s hs

theorem tunnels_ne_zero {s : SessionRef} (hs : tunnelOf E i = some s) : E.tunnels s ≠ 0 := by
  obtain ⟨t, ht, hphase⟩ := tunnelOf_eq_some hs
  have hpos : 0 < E.tunnels s :=
    List.countP_pos_iff.mpr ⟨t, List.mem_of_getElem? ht, by simp [hphase, Phase.tunnel?]⟩
  exact Nat.ne_of_gt hpos

/-- A managed operation that takes no connection's spot away. -/
theorem Held.manage (h : Held cfg w) {op : QueueOp} (hop : op.isManaged = true)
    (hstep : w.endpoint.queue.step op = some q) (hkeeps : w.KeepsConnections (.manage op)) :
    Held cfg ⟨{ w.endpoint with queue := q }, w.granted⟩ where
  balanced := h.balanced.manage hop hstep
  known := h.known
  started := h.started
  keeps := by
    intro g hg s hs
    have hk := h.keeps g hg s hs
    show g.2 ∈ q.spots
    cases op with
    | admitQueued r path sessionAt queuedAt promoteAt => exact absurd hop Bool.false_ne_true
    | abandon e => exact absurd hop Bool.false_ne_true
    | release e now promoteAt => exact absurd hop Bool.false_ne_true
    | releaseSession client sessionId promoteAt => exact absurd hkeeps id
    | tick now promoteAt =>
        obtain rfl := Option.some.inj hstep
        refine EndpointQueue.tick_spots hk fun v hv hsur => ?_
        by_cases hmine : s = v.2.2
        · -- the session of the connection itself has something in flight
          have hvisit := (EndpointQueue.managed_accounts.visits h.balanced.accounts now promoteAt
            v hv).1
          have hrun := hvisit.inflight_pos_of_held (hmine ▸ tunnels_ne_zero hs)
          exact absurd hrun (EndpointQueue.not_inflight_of_surrenders hsur)
        · exact (hkeeps v hv hsur _ (mem_connections hg hs) hmine).symm
    | setReady ready =>
        obtain rfl := Option.some.inj hstep
        exact hk
    | tryPromote now =>
        obtain rfl := Option.some.inj hstep
        exact EndpointQueue.tryPromote_spots_mono hk now
    | setClientStatus s' status detail at' =>
        obtain ⟨-, hq⟩ := Option.ite_none_right_eq_some.mp hstep
        obtain rfl := Option.some.inj hq
        exact hk
    | setSharedSpotKey s' key =>
        obtain ⟨-, hq⟩ := Option.ite_none_right_eq_some.mp hstep
        obtain rfl := Option.some.inj hq
        exact hk

/-- A task that was granted a spot, and goes on, is a connection that closes. -/
theorem Held.closes_of_granted (h : Held cfg w) (ht : w.endpoint.tasks[i]? = some t)
    (hmove : Move w.endpoint t q a phase) (hopen : ∀ reply, t.phase ≠ .ended reply)
    {g : Nat × Key} (hg : g ∈ w.granted) (hgi : g.1 = i) : phase = .ended (.closed none) := by
  obtain ⟨t', ht', hphase⟩ := h.started g hg
  rw [hgi] at ht'
  obtain rfl : t = t' := Option.some.inj (ht.symm.trans ht')
  rcases hphase with htunnel | ⟨reply, hended⟩
  · obtain ⟨s', hs'⟩ := Option.isSome_iff_exists.mp htunnel
    obtain ⟨t', ht', htunnel⟩ := tunnelOf_eq_some ((tunnelOf_of_task ht).trans hs')
    obtain rfl : t = t' := Option.some.inj (ht.symm.trans ht')
    exact (hmove.closes htunnel).1
  · exact absurd hended (hopen reply)

/-- The spots of the other open connections stay. -/
theorem Held.spots_of_others (h : Held cfg w) (ht : w.endpoint.tasks[i]? = some t)
    (hmove : Move w.endpoint t q a phase) {input : Input}
    (hkeeps : w.KeepsConnections (.resume i input)) {g : Nat × Key} (hg : g ∈ w.granted)
    (hne : g.1 ≠ i) {s : SessionRef} (hs : tunnelOf w.endpoint g.1 = some s) : g.2 ∈ q.spots := by
  have hk := h.keeps g hg s hs
  cases hclosing : t.phase.tunnel? with
  | none => exact hmove.spots_mono hclosing hk
  | some s' =>
      have hs' : tunnelOf w.endpoint i = some s' := by rw [tunnelOf_of_task ht, hclosing]
      obtain ⟨t', ht', htunnel⟩ := tunnelOf_eq_some hs'
      obtain rfl : t = t' := Option.some.inj (ht.symm.trans ht')
      obtain ⟨-, promoteAt, rfl⟩ := hmove.closes htunnel
      refine EndpointQueue.releaseWsSpot_spots hk fun hkey => ?_
      -- the spot of the closing session is not one another connection was granted
      have hmem : (w.endpoint.queue.objs s').key ∈ w.endpoint.queue.spots := hkey ▸ hk
      exact (hkeeps s' hs' hmem).2 _ (mem_connections hg hs) hne hkey

/-- A task runs on. When it is a connection that closes, no other connection runs on the spot
it drops. -/
theorem Held.advance (h : Held cfg w) (ht : w.endpoint.tasks[i]? = some t)
    (hmove : Move w.endpoint t q a phase) (hopen : ∀ reply, t.phase ≠ .ended reply)
    {input : Input} (hkeeps : w.KeepsConnections (.resume i input)) :
    Held cfg ⟨w.endpoint.advance i t q a phase,
      w.granted ++ (grantedBy (w.endpoint.advance i t q a phase) (.resume i input)).toList⟩ := by
  have hlt : i < w.endpoint.tasks.length := (List.getElem?_eq_some_iff.mp ht).1
  have hself : tunnelOf (w.endpoint.advance i t q a phase) i = phase.tunnel? :=
    tunnelOf_advance_self ht
  have hgranted : grantedBy (w.endpoint.advance i t q a phase) (.resume i input) =
      phase.tunnel?.bind (fun s => (q.spotKey (q.objs s)).map (i, ·)) := by
    rw [grantedBy, hself]
    rfl
  constructor
  · exact h.balanced.move ht hmove
  · intro j s hs
    by_cases hji : j = i
    · subst hji
      rw [hself] at hs
      obtain ⟨k, hk⟩ := hmove.spotKey_of_tunnel hs
      refine ⟨k, List.mem_append_right _ ?_⟩
      simp [hgranted, hs, hk]
    · rw [tunnelOf_advance_of_ne hji] at hs
      obtain ⟨k, hk⟩ := h.known j s hs
      exact ⟨k, List.mem_append_left _ hk⟩
  · intro g hg s hs
    rcases List.mem_append.mp hg with hold | hnew
    · by_cases hgi : g.1 = i
      · -- a task that was granted a spot is open or over; this one is open, and closes
        rw [hgi, hself, h.closes_of_granted ht hmove hopen hold hgi] at hs
        exact absurd hs (by simp [Phase.tunnel?])
      · rw [tunnelOf_advance_of_ne hgi] at hs
        exact h.spots_of_others ht hmove hkeeps hold hgi hs
    · rw [hgranted] at hnew
      obtain ⟨s', -, hmap⟩ := Option.bind_eq_some_iff.mp (Option.mem_toList.mp hnew)
      obtain ⟨k, hk, rfl⟩ := Option.map_eq_some_iff.mp hmap
      exact EndpointQueue.mem_spots_of_spotKey hk
  · intro g hg
    rcases List.mem_append.mp hg with hold | hnew
    · by_cases hgi : g.1 = i
      · rw [hgi]
        exact ⟨t.moveTo phase, by simp [Endpoint.advance, hlt],
          Or.inr ⟨_, h.closes_of_granted ht hmove hopen hold hgi⟩⟩
      · obtain ⟨t', ht', hphase⟩ := h.started g hold
        refine ⟨t', ?_, hphase⟩
        simp [Endpoint.advance, List.getElem?_set_ne (Ne.symm hgi), ht']
    · rw [hgranted] at hnew
      obtain ⟨s', hs', hmap⟩ := Option.bind_eq_some_iff.mp (Option.mem_toList.mp hnew)
      obtain ⟨k, hk, rfl⟩ := Option.map_eq_some_iff.mp hmap
      exact ⟨t.moveTo phase, by simp [Endpoint.advance, hlt], Or.inl (by simp [Task.moveTo, hs'])⟩

/-- Every step that takes no spot away from under a connection keeps the invariant. -/
theorem Held.step (h : Held cfg w) {op : Op} (hstep : w.step op = some w')
    (hkeeps : w.KeepsConnections op) : Held cfg w' := by
  obtain ⟨E, hE, rfl⟩ := Option.map_eq_some_iff.mp hstep
  rcases step_cases hE with ⟨request, rfl, rfl⟩ |
    ⟨i, input, t, q, a, phase, rfl, ht, hmove, hrun, rfl⟩ | ⟨qop, q, rfl, hmanaged, hqstep, rfl⟩
  · have htunnel := tunnelOf_arrive (E := w.endpoint) request
    rw [show grantedBy _ (.arrive request) = none from rfl, Option.toList_none, List.append_nil]
    constructor
    · exact h.balanced.arrive request
    · intro j s hs
      rw [htunnel] at hs
      exact h.known j s hs
    · intro g hg s hs
      rw [htunnel] at hs
      exact h.keeps g hg s hs
    · intro g hg
      obtain ⟨t, ht, hphase⟩ := h.started g hg
      refine ⟨t, ?_, hphase⟩
      rw [List.getElem?_append_left (List.getElem?_eq_some_iff.mp ht).1]
      exact ht
  · refine h.advance ht hmove (fun reply hended => ?_) hkeeps
    simp [run, hended] at hrun
  · rw [show grantedBy _ (.manage qop) = none from rfl, Option.toList_none, List.append_nil]
    exact h.manage hmanaged hqstep hkeeps

/-- A connection that closes on a session whose counters show nothing else in flight is
alone on it. -/
theorem Held.aloneOn (h : Held cfg w) {s : SessionRef} (hs : tunnelOf w.endpoint i = some s)
    (hcounts : ∀ s' < w.endpoint.queue.objs.next,
      (w.endpoint.queue.objs s').key = (w.endpoint.queue.objs s).key →
      (w.endpoint.queue.objs s').inflight = if s' = s then 1 else 0) :
    w.AloneOn i (w.endpoint.queue.objs s).key := by
  have hacc := h.balanced.accounts
  have hmine := tunnels_ne_zero hs
  refine ⟨fun e he hkey => ?_, fun j s' hs' hkey => ?_⟩
  · have hlt := hacc.session_lt e (hacc.running_done e he).1
    have hin := hcounts _ hlt hkey
    have hcount := hacc.inflight_eq (w.endpoint.queue.sessionOf e)
    have hpos : 0 < w.endpoint.queue.runningCount (w.endpoint.queue.sessionOf e) :=
      List.countP_pos_iff.mpr ⟨e, he, by simp⟩
    by_cases hse : w.endpoint.queue.sessionOf e = s
    · rw [hse] at hin hcount hpos
      rw [if_pos rfl] at hin
      omega
    · rw [if_neg hse] at hin
      omega
  · by_contra hji
    have hlt := hacc.held_lt s' (tunnels_ne_zero hs')
    have hin := hcounts s' hlt hkey
    have hcount := hacc.inflight_eq s'
    have hpos := tunnels_ne_zero hs'
    by_cases hss : s' = s
    · -- without task `i` the session still counts the connection of task `j`
      obtain ⟨t, ht, hphase⟩ := tunnelOf_eq_some hs
      have hrest : (w.endpoint.advance i t w.endpoint.queue 0 .arrived).tunnels s +
          (if t.phase.tunnel? = some s then 1 else 0) =
          w.endpoint.tunnels s + if Phase.arrived.tunnel? = some s then 1 else 0 :=
        tunnels_advance ht s
      have hother : (w.endpoint.advance i t w.endpoint.queue 0 .arrived).tunnels s ≠ 0 := by
        refine tunnels_ne_zero (i := j) ?_
        rw [tunnelOf_advance_of_ne hji, hs', hss]
      rw [if_pos (by rw [hphase]; rfl), if_neg (by simp [Phase.tunnel?])] at hrest
      rw [if_pos hss] at hin
      rw [hss] at hcount hin
      omega
    · rw [if_neg hss] at hin
      omega

/-- **A connection keeps its spot, as long as none is taken away.** In every run in which
connections close alone on their sessions and no spot another session's connection runs on
is given up, every open connection has been granted a spot and the spot is held in every
state, and a connection that closes takes the spot of its session away only when no other
request or connection of that session is in flight. -/
theorem lifetime_of_run {ops : List Op}
    (h : Run (Steps step KeepsConnections) (Watched.init cfg) ops w) :
    w.KeepsSpots ∧
    ∀ i input s, tunnelOf w.endpoint i = some s → w.KeepsConnections (.resume i input) →
      (w.endpoint.queue.objs s).key ∈ w.endpoint.queue.spots →
      w.AloneOn i (w.endpoint.queue.objs s).key := by
  have hheld : Held cfg w :=
    h.invariant (fun _ _ _ hw hstep => hw.step hstep.1 hstep.2) (Held.init cfg)
  refine ⟨hheld.keepsSpots, fun i input s hs hkeeps hspot => ?_⟩
  exact hheld.aloneOn hs (hkeeps s hs hspot).1

instance (w : Watched) (op : Op) : Decidable (w.KeepsConnections op) :=
  match op with
  | .arrive _ => inferInstanceAs (Decidable True)
  | .resume _ _ => inferInstanceAs (Decidable (∀ s ∈ tunnelOf _ _, _))
  | .manage (.releaseSession ..) => inferInstanceAs (Decidable False)
  | .manage (.tick _ _) => inferInstanceAs (Decidable (∀ v ∈ EndpointQueue.visits _ _ _, _))
  | .manage (.admitQueued ..) | .manage (.abandon _) | .manage (.release ..)
  | .manage (.setReady _) | .manage (.tryPromote _) | .manage (.setClientStatus ..)
  | .manage (.setSharedSpotKey ..) => inferInstanceAs (Decidable True)

/-- Connections of two sessions are opened; a tick passes, and the first one closes. -/
def twoSessions : List Op :=
  [.manage (.setReady true), .arrive (.ofSession .webSocket "a"), .resume 0 { now := 1 },
    .resume 0 { now := 1 }, .arrive (.ofSession .webSocket "b"), .resume 1 { now := 2 },
    .resume 1 { now := 2 }, .manage (.tick 1000 fun _ => 1000), .resume 0 { promoteAt := 1001 }]

/-- Two spots, one request of a session at a time. -/
def twoSpots : EndpointConfig := .queued (.ofArgs 2 1 300 600 false false)

theorem lifetime_of_run_twoSessions :
    ∃ w, exec (guarded step KeepsConnections) (Watched.init twoSpots) twoSessions = some w ∧
      w.connections = [⟨1, 1, ("unknown", "b")⟩] ∧
      ("unknown", "b") ∈ w.endpoint.queue.spots := by
  have hview : (exec (guarded step KeepsConnections) (Watched.init twoSpots) twoSessions).map
      (fun w => w.connections) = some [⟨1, 1, ("unknown", "b")⟩] := by
    decide +kernel
  obtain ⟨w, hexec, hw⟩ := Option.map_eq_some_iff.mp hview
  refine ⟨w, hexec, hw, ?_⟩
  exact (lifetime_of_run (run_of_exec_guarded hexec)).1.2 ⟨1, 1, ("unknown", "b")⟩ (by simp [hw])

/-- Two connections of one session are opened, and the first one closes. -/
def sameSession : List Op :=
  [.manage (.setReady true), .arrive (.ofSession .webSocket "a"), .resume 0 { now := 1 },
    .resume 0 { now := 1 }, .arrive (.ofSession .webSocket "a"), .resume 1 { now := 2 },
    .resume 1 { now := 2 }, .resume 0 { promoteAt := 3 }]

/-- The second connection is still open and counted in flight, and its spot is gone. -/
theorem lifetime_counterexample :
    ∃ w, exec step (Watched.init twoSpots) sameSession = some w ∧
      w.connections = [⟨1, 0, ("unknown", "a")⟩] ∧ (w.endpoint.queue.objs 0).inflight = 1 ∧
      w.endpoint.queue.spots.keys = [] ∧ ¬ w.KeepsSpots := by
  have hview : (exec step (Watched.init twoSpots) sameSession).map
      (fun w => (w.connections, (w.endpoint.queue.objs 0).inflight,
        w.endpoint.queue.spots.keys)) = some ([⟨1, 0, ("unknown", "a")⟩], 1, []) := by
    decide +kernel
  obtain ⟨w, hexec, hw⟩ := Option.map_eq_some_iff.mp hview
  obtain ⟨hconn, hw⟩ := Prod.mk.inj hw
  obtain ⟨hin, hspots⟩ := Prod.mk.inj hw
  refine ⟨w, hexec, hconn, hin, hspots, fun hkeeps => ?_⟩
  have hmem : ("unknown", "a") ∈ w.endpoint.queue.spots.keys :=
    hkeeps.2 ⟨1, 0, ("unknown", "a")⟩ (by simp [hconn])
  rw [hspots] at hmem
  exact absurd hmem List.not_mem_nil

end Watched

end Endpoint

end Relay
