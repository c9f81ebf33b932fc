import JsWaku.Relay.Fanout
import JsWaku.Relay.MeshChange

/-!
# JsWaku.Relay.Separation

Two things that no state of a run should show.

* `Indirect` — no direct peer is in a mesh. A join that finds one in its fanout set breaks it.
* `Apart`    — no topic is in both maps. A publish for a topic that was joined when it had no peers
  breaks it.

For both, `always_indirect_iff` and `always_apart_iff` say in which runs they hold throughout.
-/

namespace JsWaku
namespace Relay

open Js Trace

section

variable {S : Type} {r : Router S} {topic : Topic}

def Indirect (r : Router S) : Prop :=
  ∀ topic M, r.mesh.get topic = some M → ∀ id, id ∈ M → ¬ id ∈ r.direct

/-- No topic is in both maps. -/
def Apart (r : Router S) : Prop := ∀ topic, r.mesh.get topic = none ∨ r.fanout.get topic = none

theorem Router.Fresh.indirect (h : r.Fresh) : Indirect r := by
  intro topic M hM
  rw [h.mesh] at hM
  cases hM

theorem Router.Fresh.apart (h : r.Fresh) : Apart r := by
  intro topic
  rw [h.mesh]
  exact .inl rfl

theorem indirect_kept (t : Tick S) (topic : Topic) :
    Kept t topic fun run => ∀ id, id ∈ run.peers → ¬ id ∈ t.router.direct where
  prune _ _ h p hp := h p (mem_prunePeer.mp hp).2
  graft run id hfit h p hp := by
    rcases mem_graftPeer.mp hp with rfl | hp
    · exact hfit.indirect
    · exact h p hp
  noPX _ _ h := h

theorem indirect_set_iff (h : Indirect r) {peers : OrdSet PeerId} :
    (∀ topic' M, (r.mesh.set topic peers).get topic' = some M → ∀ id, id ∈ M → ¬ id ∈ r.direct) ↔
      ∀ id, id ∈ peers → ¬ id ∈ r.direct := by
  constructor
  · intro hall
    exact hall topic peers (OrdMap.get_set_self _ _ _)
  · intro hpeers topic' M hM
    rw [OrdMap.get_set] at hM
    split at hM
    · cases hM
      exact hpeers
    · exact h topic' M hM

end

section

variable {S : Type} [LinearOrder S] [Zero S] {gossipsub : Gossipsub} {env : Surroundings S}
  {r : Router S} {topic : Topic} {msg : InMessage} {events : List (Event S)}

/-- A join finds no direct peer in the fanout set, unless it drops it for its score. -/
def PromotesIndirect (r : Router S) : Event S → Prop
  | .join env topic => r.started = true → ∀ f, r.fanout.get topic = some f →
      ∀ id, id ∈ f → id ∈ r.direct → env.score (some id) < 0
  | .heartbeat _ => True
  | .publish _ _ => True
  | .change _ _ _ => True

theorem indirect_heartbeat (h : Indirect r) : Indirect (next gossipsub r (.heartbeat env)) := by
  intro topic M' hM'
  change (heartbeat gossipsub env r).router.mesh.get topic = some M' at hM'
  cases hM : r.mesh.get topic with
  | none =>
    rw [(heartbeat_other gossipsub env hM).1] at hM'
    cases hM'
  | some M =>
    obtain ⟨c, _, hmesh, _⟩ := heartbeat_round gossipsub env hM
    rw [hmesh] at hM'
    cases hM'
    exact (indirect_kept (tickOf gossipsub env r) topic).maintainTopic (h topic M hM)

theorem mem_joinPeers_of_fanout {f : OrdSet PeerId} {id : PeerId} (hf : r.fanout.get topic = some f)
    (hid : id ∈ nonnegative env f) : id ∈ joinPeers env topic r := by
  simp only [joinPeers, hf]
  split
  · exact OrdSet.mem_foldl_add.mpr (.inr hid)
  · exact hid

/-- Of a join's choices only those taken over from the fanout can be direct. -/
theorem joinPeers_indirect_iff : (∀ id, id ∈ joinPeers env topic r → ¬ id ∈ r.direct) ↔
    ∀ f, r.fanout.get topic = some f → ∀ id, id ∈ f → id ∈ r.direct → env.score (some id) < 0 := by
  constructor
  · intro h f hf id hid hdirect
    by_contra hscore
    refine h id (mem_joinPeers_of_fanout hf ?_) hdirect
    simpa [nonnegative, hid] using hscore
  · intro h id hid
    have hcandidate := candidate_of_mem_joinPeers hid
    unfold JoinCandidate at hcandidate
    split at hcandidate
    · rename_i f hf
      rcases hcandidate with hmem | ⟨_, helig⟩
      · intro hdirect
        simp only [nonnegative, OrdSet.mem_filter, Bool.not_eq_true', decide_eq_false_iff_not] at hmem
        exact hmem.2 (h f hf id hmem.1 hdirect)
      · exact helig.2.1
    · exact hcandidate.2.1

theorem indirect_join_iff (h : Indirect r) :
    Indirect (next gossipsub r (.join env topic)) ↔ PromotesIndirect r (.join env topic) := by
  rcases next_join_cases gossipsub env topic r with ⟨hoff, heq⟩ | ⟨hon, _, heq⟩ | ⟨hon, _, heq⟩
  · rw [heq]
    refine iff_of_true h ?_
    intro hon
    rw [hoff] at hon
    cases hon
  · rw [heq, PromotesIndirect, ← joinPeers_indirect_iff]
    exact (indirect_set_iff h).trans ⟨fun hall _ => hall, fun hall => hall hon⟩
  · rw [heq, PromotesIndirect, ← joinPeers_indirect_iff]
    exact (indirect_set_iff h).trans ⟨fun hall _ => hall, fun hall => hall hon⟩

theorem indirect_next_iff (e : Event S) (h : Indirect r) :
    Indirect (next gossipsub r e) ↔ PromotesIndirect r e := by
  cases e with
  | heartbeat env => exact iff_of_true (indirect_heartbeat h) trivial
  | join env topic => exact indirect_join_iff h
  | publish env msg =>
    refine iff_of_true ?_ trivial
    have hpublished := published_publish env msg r
    intro topic M hM
    change (publish env msg r).1.mesh.get topic = some M at hM
    change ∀ id, id ∈ M → ¬ id ∈ (publish env msg r).1.direct
    rw [hpublished.mesh] at hM
    rw [hpublished.direct]
    exact h topic M hM
  | change peers topics outbound =>
    refine iff_of_true ?_ trivial
    intro topic M hM id hid
    obtain ⟨M', hM', rfl⟩ := change_mesh hM
    exact h topic M' hM' id (OrdSet.mem_filter.mp hid).1

theorem always_indirect_iff (hr : r.Fresh) :
    Always (next gossipsub) Indirect r events ↔
      Throughout (next gossipsub) PromotesIndirect r events :=
  always_iff_throughout (fun _ e h => indirect_next_iff e h) hr.indirect

end

namespace Promoted

def router : Router Int := { Rejoin.router with direct := .ofList ["a"] }

def events : List (Event Int) :=
  [.publish (Rejoin.clock 0 1) ⟨none, "b", ["news"]⟩, .join (Rejoin.clock 1000 1) "news"]

theorem fresh : router.Fresh := ⟨rfl, rfl, rfl⟩

end Promoted

theorem always_indirect_calm :
    Promoted.router.direct.has "a" = true ∧
      Always (next .standard) Indirect Promoted.router Rejoin.calm := by
  refine ⟨by decide, (always_indirect_iff Promoted.fresh).mpr ⟨?_, trivial, trivial, trivial⟩⟩
  intro _ f hf
  cases hf

theorem join_promotes_direct : Promoted.router.Fresh ∧
    ¬ Always (next .standard) Indirect Promoted.router Promoted.events := by
  refine ⟨Promoted.fresh, fun h => ?_⟩
  exact h.last "news" (.ofList ["a"]) (by rfl) "a" (by decide) (by decide)

section

variable {S : Type} [LinearOrder S] [Zero S] {gossipsub : Gossipsub} {env : Surroundings S}
  {r : Router S} {topic : Topic} {msg : InMessage} {events : List (Event S)}

def FanoutIndirect (r : Router S) : Prop :=
  ∀ topic f, r.fanout.get topic = some f → ∀ id, id ∈ f → ¬ id ∈ r.direct

/-- A publish that fills a fanout set finds no direct peer to choose. -/
def ChoosesIndirect (r : Router S) : Event S → Prop
  | .publish env msg => ∀ topic, Fans r msg.topicIDs topic → r.fanout.get topic = none →
      ∀ id, RelayPeer r topic id → r.publishable env id = true → ¬ id ∈ r.direct
  | .heartbeat _ => True
  | .join _ _ => True
  | .change _ _ _ => True

theorem fanoutIndirect_publish (h : FanoutIndirect r) (hchoice : ChoosesIndirect r (.publish env msg)) :
    FanoutIndirect (next gossipsub r (.publish env msg)) := by
  have hpublished := published_publish env msg r
  intro topic f hf
  change (publish env msg r).1.fanout.get topic = some f at hf
  change ∀ id, id ∈ f → ¬ id ∈ (publish env msg r).1.direct
  rw [hpublished.fanout] at hf
  rw [hpublished.direct]
  split at hf
  · rename_i hfans
    rcases fanoutFor_cases hf with hf | ⟨hnone, rfl, _⟩
    · exact h topic f hf
    · intro id hid
      obtain ⟨hrelay, hscore⟩ := of_mem_publishPeers hid
      exact hchoice topic hfans hnone id hrelay hscore
  · exact h topic f hf

theorem fanoutIndirect_next (e : Event S) (h : FanoutIndirect r) (hchoice : ChoosesIndirect r e) :
    FanoutIndirect (next gossipsub r e) := by
  cases e with
  | heartbeat env =>
    intro topic f hf id hid
    obtain ⟨f', hf', _, rfl⟩ := heartbeat_fanout_some hf
    rcases mem_fanoutRound hid with ⟨hmem, _⟩ | hadds
    · exact h topic f' hf' id hmem
    · exact hadds.2.1
  | join env topic =>
    rcases next_join_cases gossipsub env topic r with ⟨_, heq⟩ | ⟨_, _, heq⟩ | ⟨_, _, heq⟩
    · rwa [heq]
    · rw [heq]
      intro topic' f hf
      exact h topic' f (OrdMap.get_delete_some hf).2
    · rw [heq]
      exact h
  | publish env msg => exact fanoutIndirect_publish h hchoice
  | change peers topics outbound =>
    intro topic f hf id hid
    obtain ⟨f', hf', rfl⟩ := change_fanout hf
    exact h topic f' hf' id (OrdSet.mem_filter.mp hid).1

/-- Heartbeats choose no direct peer, so joins find one only if a publish chose it. -/
theorem promotes_of_chooses (hr : FanoutIndirect r)
    (h : Throughout (next gossipsub) ChoosesIndirect r events) :
    Throughout (next gossipsub) PromotesIndirect r events := by
  refine throughout_of_always ?_ (always_of_throughout (fun _ e => fanoutIndirect_next e) hr h)
  intro r e hfanout _
  cases e with
  | heartbeat env => trivial
  | join env topic =>
    intro _ f hf id hid hdirect
    exact absurd hdirect (hfanout topic f hf id hid)
  | publish env msg => trivial
  | change peers topics outbound => trivial

/-! ## The two maps -/

/-- A publish finds nobody to choose for a topic whose mesh is there but empty. -/
def FansUnjoined (r : Router S) : Event S → Prop
  | .publish env msg => ∀ topic, Fans r msg.topicIDs topic → r.mesh.get topic ≠ none →
      ∀ id, RelayPeer r topic id → ¬ r.publishable env id = true
  | .heartbeat _ => True
  | .join _ _ => True
  | .change _ _ _ => True

theorem apart_heartbeat (h : Apart r) : Apart (next gossipsub r (.heartbeat env)) := by
  intro topic
  rcases h topic with hM | hf
  · exact .inl (heartbeat_other gossipsub env hM).1
  · refine .inr ((heartbeat_fanout gossipsub env r topic).trans ?_)
    rw [hf]
    rfl

theorem apart_join (h : Apart r) : Apart (next gossipsub r (.join env topic)) := by
  rcases next_join_cases gossipsub env topic r with ⟨_, heq⟩ | ⟨_, _, heq⟩ | ⟨_, hnone, heq⟩
  · rwa [heq]
  · rw [heq]
    intro topic'
    by_cases hne : topic = topic'
    · rw [← hne]
      exact .inr (OrdMap.get_delete_self _ _)
    · rcases h topic' with hM | hf
      · exact .inl ((OrdMap.get_set_of_ne hne _ _).trans hM)
      · exact .inr ((OrdMap.get_delete_of_ne hne _).trans hf)
  · rw [heq]
    intro topic'
    by_cases hne : topic = topic'
    · rw [← hne]
      exact .inr hnone
    · rcases h topic' with hM | hf
      · exact .inl ((OrdMap.get_set_of_ne hne _ _).trans hM)
      · exact .inr hf

theorem apart_publish_iff (h : Apart r) :
    Apart (next gossipsub r (.publish env msg)) ↔ FansUnjoined r (.publish env msg) := by
  have hpublished := published_publish env msg r
  change (∀ topic, (publish env msg r).1.mesh.get topic = none ∨
    (publish env msg r).1.fanout.get topic = none) ↔ _
  rw [hpublished.mesh]
  constructor
  · intro hall topic hfans hM
    have hf := (h topic).resolve_left hM
    have hnone := (hall topic).resolve_left hM
    rw [hpublished.fanout, if_pos hfans, fanoutFor_eq_none_iff hf] at hnone
    exact hnone
  · intro hall topic
    by_cases hM : r.mesh.get topic = none
    · exact .inl hM
    · have hf := (h topic).resolve_left hM
      refine .inr ?_
      rw [hpublished.fanout]
      split
      · rename_i hfans
        exact (fanoutFor_eq_none_iff hf).mpr (hall topic hfans hM)
      · exact hf

theorem apart_next_iff (e : Event S) (h : Apart r) :
    Apart (next gossipsub r e) ↔ FansUnjoined r e := by
  cases e with
  | heartbeat env => exact iff_of_true (apart_heartbeat h) trivial
  | join env topic => exact iff_of_true (apart_join h) trivial
  | publish env msg => exact apart_publish_iff h
  | change peers topics outbound =>
    exact iff_of_true (fun topic => (h topic).imp change_mesh_none change_fanout_none) trivial

theorem always_apart_iff (hr : r.Fresh) :
    Always (next gossipsub) Apart r events ↔ Throughout (next gossipsub) FansUnjoined r events :=
  always_iff_throughout (fun _ e h => apart_next_iff e h) hr.apart

end

namespace Early

def router : Router Int := { Rejoin.router with topics := fun _ => none }

def events : List (Event Int) :=
  [.join (Rejoin.clock 0 1) "news",
   .change Rejoin.router.peers Rejoin.router.topics Rejoin.router.outbound,
   .publish (Rejoin.clock 1000 1) ⟨none, "b", ["news"]⟩]

end Early

theorem always_apart_published : Always (next .standard) Apart Rejoin.router Promoted.events := by
  refine (always_apart_iff ⟨rfl, rfl, rfl⟩).mpr ⟨?_, trivial, trivial⟩
  intro topic _ hM
  exact absurd rfl hM

theorem publish_fans_joined : Early.router.Fresh ∧
    ¬ Always (next .standard) Apart Early.router Early.events := by
  refine ⟨⟨rfl, rfl, rfl⟩, fun h => ?_⟩
  rcases h.last "news" with hM | hf
  · exact absurd hM (by decide)
  · exact absurd hf (by decide)

end Relay
end JsWaku
