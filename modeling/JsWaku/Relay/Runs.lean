import JsWaku.Relay.Grafts
import JsWaku.Relay.JoinPublish

/-!
# JsWaku.Relay.Runs

Runs of a relay node: heartbeats, joins and publishes in any order, with changes of the peers and
of what they subscribe to in between. Every event brings its own scores, shuffles and clock.

* `Router.change` — peers come and go; gossipsub takes those who are gone out of the meshes and
  fanout sets.
* `step`, `run` — the router afterwards, and the GRAFTs sent.
* `run_respects_backoff` — no GRAFT goes to a peer in backoff, in runs without a join that may choose
  one.
-/

namespace JsWaku
namespace Relay

open Js

inductive Event (S : Type) where
  | heartbeat (env : Surroundings S)
  | join (env : Surroundings S) (topic : Topic)
  | publish (env : Surroundings S) (msg : InMessage)
  | change (peers : PeerId → Option String) (topics : Topic → Option (OrdSet PeerId))
      (outbound : PeerId → Bool)

/-- A GRAFT that is sent, with the entry at that moment. -/
structure Issue where
  now : Time
  graft : Graft
  entry : Option Time
  deriving DecidableEq, Repr

section

variable {S : Type}

/-- The peer had streams, and with `peers` it has none. -/
def Router.loses (r : Router S) (peers : PeerId → Option String) (id : PeerId) : Bool :=
  (r.peers id).isSome && (peers id).isNone

/-- `_removePeer` deletes a peer whose streams have ended from every set of `mesh` and `fanout`. -/
def Router.change (r : Router S) (peers : PeerId → Option String)
    (topics : Topic → Option (OrdSet PeerId)) (outbound : PeerId → Bool) : Router S :=
  { r with
    peers := peers
    topics := topics
    outbound := outbound
    mesh := r.mesh.mapValues fun M => M.filter fun id => !r.loses peers id
    fanout := r.fanout.mapValues fun f => f.filter fun id => !r.loses peers id }

section

variable {r : Router S} {peers : PeerId → Option String} {topics : Topic → Option (OrdSet PeerId)}
  {outbound : PeerId → Bool} {topic : Topic} {s : OrdSet PeerId}

theorem change_mesh (h : (r.change peers topics outbound).mesh.get topic = some s) :
    ∃ M, r.mesh.get topic = some M ∧ s = M.filter fun id => !r.loses peers id :=
  OrdMap.get_mapValues_some h

theorem change_fanout (h : (r.change peers topics outbound).fanout.get topic = some s) :
    ∃ f, r.fanout.get topic = some f ∧ s = f.filter fun id => !r.loses peers id :=
  OrdMap.get_mapValues_some h

theorem change_mesh_none (h : r.mesh.get topic = none) :
    (r.change peers topics outbound).mesh.get topic = none := by
  rw [Router.change, OrdMap.get_mapValues, h]
  rfl

theorem change_fanout_none (h : r.fanout.get topic = none) :
    (r.change peers topics outbound).fanout.get topic = none := by
  rw [Router.change, OrdMap.get_mapValues, h]
  rfl

end

variable [LinearOrder S] [Zero S]

def issues (now : Time) (r : Router S) (grafts : List Graft) : List Issue :=
  grafts.map fun g => ⟨now, g, r.backoff g.topic g.id⟩

/-- A join that throws changes nothing. -/
def step (gossipsub : Gossipsub) (r : Router S) : Event S → Router S × List Issue
  | .heartbeat env =>
    let beat := heartbeat gossipsub env r
    (beat.router, issues env.now beat.router beat.grafts)
  | .join env topic =>
    match join env topic r with
    | .ok (r', grafts) => (r', issues env.now r' grafts)
    | .error _ => (r, [])
  | .publish env msg => ((publish env msg r).1, [])
  | .change peers topics outbound => (r.change peers topics outbound, [])

def run (gossipsub : Gossipsub) (r : Router S) : List (Event S) → Router S × List Issue
  | [] => (r, [])
  | e :: es =>
    let (r, sent) := step gossipsub r e
    let (r, rest) := run gossipsub r es
    (r, sent ++ rest)

/-! ## Backoff -/

def Unexpired (now : Time) (entry : Option Time) : Prop := ∃ expire, entry = some expire ∧ now ≤ expire

theorem not_unexpired_none (now : Time) : ¬ Unexpired now none := by
  rintro ⟨_, h, _⟩
  cases h

instance (now : Time) (entry : Option Time) : Decidable (Unexpired now entry) :=
  match entry with
  | none => isFalse (not_unexpired_none now)
  | some expire => decidable_of_iff (now ≤ expire) (by simp [Unexpired])

/-- Neither when it was decided on nor when it was sent was the peer in backoff. -/
def Issue.Respects (i : Issue) : Prop := ¬ Unexpired i.now i.graft.entry ∧ ¬ Unexpired i.now i.entry

instance (i : Issue) : Decidable i.Respects := inferInstanceAs (Decidable (_ ∧ _))

/-- A join finds nobody in backoff to choose; a heartbeat does not prune whom it has just grafted. -/
def Permits (gossipsub : Gossipsub) (r : Router S) : Event S → Prop
  | .heartbeat env => ∀ topic M, r.mesh.get topic = some M →
      ¬ CutsNewcomer (tickOf gossipsub env r) topic ⟨M, (tickOf gossipsub env r).start⟩
  | .join env topic => r.started = true →
      ∀ id, JoinCandidate env r topic id → ¬ Unexpired env.now (r.backoff topic id)
  | .publish _ _ => True
  | .change _ _ _ => True

/-- Every step of the run is permitted where it happens. -/
def Permitted (gossipsub : Gossipsub) (r : Router S) : List (Event S) → Prop
  | [] => True
  | e :: es => Permits gossipsub r e ∧ Permitted gossipsub (step gossipsub r e).1 es

variable {gossipsub : Gossipsub} {env : Surroundings S} {r : Router S} {topic : Topic} {i : Issue}

theorem heartbeat_respects (h : Permits gossipsub r (.heartbeat env))
    (hi : i ∈ (step gossipsub r (.heartbeat env)).2) : i.Respects := by
  obtain ⟨g, hg, rfl⟩ := List.mem_map.mp hi
  constructor
  · rw [(honest_heartbeat gossipsub env r).entry g hg]
    exact not_unexpired_none _
  · have hentry := sent_clear_iff.mpr h g hg
    simp only [hentry]
    exact not_unexpired_none _

/-- A join sends a GRAFT to everyone it chooses, and sees the table as it was. -/
theorem mem_step_join (hstarted : r.started = true) :
    i ∈ (step gossipsub r (.join env topic)).2 ↔ ∃ id ∈ joinPeers env topic r,
      i = ⟨env.now, ⟨id, topic, r.backoff topic id⟩, r.backoff topic id⟩ := by
  obtain ⟨r', hjoined, hjoin⟩ := @join_ok S _ _ env topic r hstarted
  simp only [step, hjoin, issues, hjoined.backoff, List.map_map, List.mem_map, Function.comp]
  exact exists_congr fun id => and_congr_right fun _ => eq_comm

/-- The condition on a join is the exact one, over all shuffles. -/
theorem join_respects_iff :
    Permits gossipsub r (.join env topic) ↔ ∀ shuffles,
      ∀ i ∈ (step gossipsub r (.join { env with shuffles := shuffles } topic)).2, i.Respects := by
  by_cases hstarted : r.started = true
  · constructor
    · intro h shuffles i hi
      obtain ⟨id, hid, rfl⟩ := (mem_step_join hstarted).mp hi
      have hout := h hstarted id (joinCandidate_iff.mpr ⟨shuffles, hid⟩)
      exact ⟨hout, hout⟩
    · intro h _ id hid
      obtain ⟨shuffles, hin⟩ := joinCandidate_iff.mp hid
      exact (h shuffles _ ((mem_step_join hstarted).mpr ⟨id, hin, rfl⟩)).1
  · refine iff_of_true (fun h => absurd h hstarted) fun shuffles i hi => ?_
    rw [step, join, if_neg hstarted] at hi
    cases hi

theorem step_respects {e : Event S} (h : Permits gossipsub r e) (hi : i ∈ (step gossipsub r e).2) :
    i.Respects := by
  cases e with
  | heartbeat env => exact heartbeat_respects h hi
  | join env topic => exact join_respects_iff.mp h env.shuffles i hi
  | publish env msg => cases hi
  | change peers topics outbound => cases hi

theorem run_respects_backoff (events : List (Event S)) (h : Permitted gossipsub r events) :
    ∀ i ∈ (run gossipsub r events).2, i.Respects := by
  induction events generalizing r with
  | nil =>
    intro i hi
    cases hi
  | cons e es ih =>
    intro i hi
    rcases List.mem_append.mp hi with hi | hi
    · exact step_respects h.1 hi
    · exact ih h.2 i hi

end

namespace Rejoin

def subscribers : OrdSet PeerId := .ofList ["a"]

def router : Router Int where
  options := ⟨6, 4, 12, 4, 2, ⟨-50, 20⟩⟩
  peers id := if subscribers.has id then some "/vac/waku/relay/2.0.0" else none
  topics topic := if topic = "news" then some subscribers else none
  direct := .empty
  outbound _ := false
  backoff _ _ := none
  mesh := .empty
  fanout := .empty
  lastpub := .empty
  heartbeatTicks := 0
  started := true

/-- Everyone has the same score. -/
def clock (now : Time) (score : Int) : Surroundings Int := ⟨fun _ => score, .identity, now⟩

def calm : List (Event Int) :=
  [.join (clock 0 1) "news", .heartbeat (clock 1000 1), .publish (clock 2000 1) ⟨none, "b", ["news"]⟩]

/-- The heartbeat prunes the peer, and a second later its score is fine again. -/
def events : List (Event Int) :=
  [.join (clock 0 1) "news", .heartbeat (clock 1000 (-1)), .join (clock 2000 1) "news"]

theorem permitted_calm : Permitted .standard router calm := by
  refine ⟨fun _ id _ => not_unexpired_none _, fun topic M _ => ?_, trivial, trivial⟩
  exact not_cutsNewcomer (by decide) (by decide) topic _

end Rejoin

theorem run_respects_backoff_calm :
    ⟨0, ⟨"a", "news", none⟩, none⟩ ∈ (run .standard Rejoin.router Rejoin.calm).2 ∧
      Issue.Respects ⟨0, ⟨"a", "news", none⟩, none⟩ := by
  have hin : ⟨0, ⟨"a", "news", none⟩, none⟩ ∈ (run .standard Rejoin.router Rejoin.calm).2 := by
    decide
  exact ⟨hin, run_respects_backoff Rejoin.calm Rejoin.permitted_calm _ hin⟩

theorem rejoin_grafts_in_backoff :
    ⟨2000, ⟨"a", "news", some (1000 + relayPruneBackoff)⟩, some (1000 + relayPruneBackoff)⟩ ∈
      (run .standard Rejoin.router Rejoin.events).2 ∧
      ¬ ∀ i ∈ (run .standard Rejoin.router Rejoin.events).2, i.Respects := by
  have hin : ⟨2000, ⟨"a", "news", some (1000 + relayPruneBackoff)⟩,
      some (1000 + relayPruneBackoff)⟩ ∈ (run .standard Rejoin.router Rejoin.events).2 := by decide
  exact ⟨hin, fun h => (h _ hin).1 ⟨1000 + relayPruneBackoff, rfl, by decide⟩⟩

end Relay
end JsWaku
