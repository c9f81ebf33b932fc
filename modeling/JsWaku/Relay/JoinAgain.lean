import JsWaku.Relay.Runs

/-!
# JsWaku.Relay.JoinAgain

A `join` of a topic that has a mesh already.

* `joinSends`  — the control messages of a join: GRAFTs, and no PRUNE.
* `KeepsLinks` — nobody leaves the mesh without a PRUNE, nobody in it is sent a GRAFT.
* `join_keepsLinks_iff` — a join keeps the links of a mesh exactly when the mesh has none.
-/

namespace JsWaku
namespace Relay

open Js

/-- A control message, by the peer it goes to and the topic. -/
inductive ControlMessage where
  | graft (id : PeerId) (topic : Topic)
  | prune (id : PeerId) (topic : Topic)
  deriving DecidableEq, Repr

/-- One `_sendGraft` for each member of the new mesh; `_sendPrune` is not called. -/
def joinSends (grafts : List Graft) : List ControlMessage :=
  grafts.map fun g => .graft g.id g.topic

/-- `meshPeers` is the mesh before, `meshPeers'` the one after. -/
structure KeepsLinks (topic : Topic) (meshPeers meshPeers' : OrdSet PeerId)
    (sent : List ControlMessage) : Prop where
  dropped : ∀ id ∈ meshPeers, ¬ id ∈ meshPeers' → .prune id topic ∈ sent
  grafted : ∀ id, .graft id topic ∈ sent → ¬ id ∈ meshPeers

section

variable {S : Type} [LinearOrder S] [Zero S] {env : Surroundings S} {topic : Topic} {r : Router S}
  {meshPeers : OrdSet PeerId}

/-- The join does not throw, and keeps the links of the mesh there was. -/
def JoinKeepsLinks (env : Surroundings S) (topic : Topic) (r : Router S) : Prop :=
  ∃ r' grafts meshPeers', join env topic r = .ok (r', grafts) ∧
    r'.mesh.get topic = some meshPeers' ∧
    ∀ meshPeers, r.mesh.get topic = some meshPeers →
      KeepsLinks topic meshPeers meshPeers' (joinSends grafts)

theorem prune_not_mem_joinSends {grafts : List Graft} {id : PeerId} :
    ¬ .prune id topic ∈ joinSends grafts := by
  intro h
  obtain ⟨g, _, hg⟩ := List.mem_map.mp h
  cases hg

theorem graft_mem_joinSends {peers : OrdSet PeerId} {entry : PeerId → Option Time} {id : PeerId} :
    .graft id topic ∈ joinSends (peers.toList.map fun id => ⟨id, topic, entry id⟩) ↔
      id ∈ peers := by
  simp [joinSends, OrdSet.mem_def]

/-- A member stays, and is sent a GRAFT, or goes, and is sent nothing. -/
theorem not_mem_of_keepsLinks {peers : OrdSet PeerId} {entry : PeerId → Option Time}
    (h : KeepsLinks topic meshPeers peers
      (joinSends (peers.toList.map fun id => ⟨id, topic, entry id⟩))) (id : PeerId) :
    ¬ id ∈ meshPeers := by
  intro hmem
  by_cases hstays : id ∈ peers
  · exact h.grafted id (graft_mem_joinSends.mpr hstays) hmem
  · exact prune_not_mem_joinSends (h.dropped id hmem hstays)

theorem JoinKeepsLinks.not_mem (h : JoinKeepsLinks env topic r) (hstarted : r.started = true)
    (hmesh : r.mesh.get topic = some meshPeers) (id : PeerId) : ¬ id ∈ meshPeers := by
  obtain ⟨r', hjoined, hjoin⟩ := @join_ok S _ _ env topic r hstarted
  obtain ⟨_, _, peers, hok, hpeers, hkeeps⟩ := h
  rw [hjoin] at hok
  cases hok
  rw [hjoined.mesh] at hpeers
  cases hpeers
  exact not_mem_of_keepsLinks (hkeeps meshPeers hmesh) id

theorem join_keepsLinks_iff (hstarted : r.started = true) : JoinKeepsLinks env topic r ↔
    ∀ meshPeers, r.mesh.get topic = some meshPeers → meshPeers.size = 0 := by
  obtain ⟨r', hjoined, hjoin⟩ := @join_ok S _ _ env topic r hstarted
  constructor
  · intro h meshPeers hmesh
    by_contra hsize
    obtain ⟨id, hid⟩ := OrdSet.exists_mem_iff.mpr hsize
    exact h.not_mem hstarted hmesh id hid
  · intro hempty
    refine ⟨r', _, _, hjoin, hjoined.mesh, fun meshPeers hmesh => ?_⟩
    have hnobody : ∀ id, ¬ id ∈ meshPeers := fun id hid =>
      OrdSet.exists_mem_iff.mp ⟨id, hid⟩ (hempty meshPeers hmesh)
    exact ⟨fun id hid => absurd hid (hnobody id), fun id _ => hnobody id⟩

end

namespace Twice

/-- The one subscriber is in the mesh. -/
def router : Router Int := { Rejoin.router with mesh := OrdMap.empty.set "news" Rejoin.subscribers }

end Twice

theorem join_keepsLinks_empty : JoinKeepsLinks (Rejoin.clock 0 1) "news"
    { Rejoin.router with mesh := OrdMap.empty.set "news" .empty } := by
  refine (join_keepsLinks_iff rfl).mpr fun meshPeers hmesh => ?_
  cases hmesh
  rfl

/-- The member is sent a second GRAFT, or is dropped without a word once its score is negative. -/
theorem join_twice_breaks_links :
    (∃ r', join (Rejoin.clock 0 1) "news" Twice.router = .ok (r', [⟨"a", "news", none⟩])) ∧
      ¬ JoinKeepsLinks (Rejoin.clock 0 1) "news" Twice.router ∧
      (∃ r', join (Rejoin.clock 0 (-1)) "news" Twice.router = .ok (r', []) ∧
        r'.mesh.get "news" = some .empty) ∧
      ¬ JoinKeepsLinks (Rejoin.clock 0 (-1)) "news" Twice.router := by
  have hmember : "a" ∈ Rejoin.subscribers := by decide
  exact ⟨⟨_, rfl⟩, fun h => h.not_mem rfl rfl "a" hmember, ⟨_, rfl, rfl⟩,
    fun h => h.not_mem rfl rfl "a" hmember⟩

end Relay
end JsWaku
