import JsWaku.Js.Bytes
import JsWaku.Lib.Pick
import JsWaku.Relay.Router
import Mathlib.Algebra.Order.Floor.Semifield
import Mathlib.Data.Rat.Floor
import Mathlib.Data.Set.Card

/-!
# JsWaku.Relay.Gossip

`WakuRelay._emitGossip` (`waku_relay/index.ts`): message ids announced to some of the peers that get
no messages pushed.

* `emitGossip`   — the calls of `_pushGossip`, in order.
* `GossipPeer`   — whom gossip may go to.
* `Gossips`      — as many of them as the factor and the minimum ask for, each told of as many of
  the cached ids as one announcement holds.
* `emitGossip_gossips` — that is what `emitGossip` does, whatever the shuffles.
-/

namespace JsWaku
namespace Relay

open Js Pick

def relayGossipFactor : ℚ := 1 / 4
def relayMaxIHaveLength : Nat := 5000

/-- What gossipsub's cache lists for gossip, each id once. -/
structure MessageCache (M : Type) where
  getGossipIDs : Topic → List M
  nodup : ∀ topic, (getGossipIDs topic).Nodup

structure IHave (M : Type) where
  topicID : Topic
  messageIDs : List M
  deriving DecidableEq, Repr

/-- The calls of `shuffle`: of all ids, of the peers, and of the ids again for one of them. -/
structure GossipShuffles (M : Type) where
  messageIDs : List M → List M
  peers : List PeerId → List PeerId
  peerMessageIDs : PeerId → List M → List M
  messageIDs_perm : ∀ l, (messageIDs l).Perm l
  peers_perm : ∀ l, (peers l).Perm l
  peerMessageIDs_perm : ∀ id l, (peerMessageIDs id l).Perm l

/-- A router with the two options and the cache that gossip reads besides. -/
structure GossipRouter (S M : Type) extends Router S where
  Dlazy : Nat
  gossipThreshold : S
  messageCache : MessageCache M

/-- `target` after its first comparison, a fraction as like as not. -/
def gossipTarget (Dlazy n : Nat) : ℚ :=
  let target : ℚ := Dlazy
  let factor := relayGossipFactor * n
  if target < factor then factor else target

/-- `peersToGossip.slice(0, target)`; `slice` drops the fraction. -/
def chooseGossipPeers (shuffle : List PeerId → List PeerId) (Dlazy : Nat)
    (peersToGossip : List PeerId) : List PeerId :=
  let target := gossipTarget Dlazy peersToGossip.length
  if peersToGossip.length < target then slice peersToGossip 0 peersToGossip.length
  else slice (shuffle peersToGossip) 0 (⌊target⌋₊ : Nat)

/-- The ids one peer is told of. -/
def chooseMessageIDs {M : Type} (shuffle : List M → List M) (messageIDs : List M) : List M :=
  if relayMaxIHaveLength < messageIDs.length then
    slice (shuffle messageIDs) 0 (relayMaxIHaveLength : Nat)
  else messageIDs

section

variable {S M : Type} [LinearOrder S]

def emitGossip (g : GossipRouter S M) (score : PeerId → S) (shuffles : GossipShuffles M)
    (topic : Topic) (exclude : OrdSet PeerId) : List (PeerId × IHave M) :=
  let messageIDs := g.messageCache.getGossipIDs topic
  if messageIDs.length = 0 then []
  else
    let messageIDs := shuffles.messageIDs messageIDs
    match g.topics topic with
    | none => []
    | some _ =>
      let peersToGossip := candidates g.toRouter topic fun id =>
        !exclude.has id && !g.direct.has id && decide (g.gossipThreshold ≤ score id)
      (chooseGossipPeers shuffles.peers g.Dlazy peersToGossip).map fun id =>
        (id, ⟨topic, chooseMessageIDs (shuffles.peerMessageIDs id) messageIDs⟩)

/-! ## What it is for -/

structure GossipPeer (g : GossipRouter S M) (score : PeerId → S) (topic : Topic)
    (exclude : OrdSet PeerId) (id : PeerId) : Prop where
  relay : RelayPeer g.toRouter topic id
  included : ¬ id ∈ exclude
  indirect : ¬ id ∈ g.direct
  score : g.gossipThreshold ≤ score id

structure Gossips (g : GossipRouter S M) (score : PeerId → S) (topic : Topic)
    (exclude : OrdSet PeerId) (pushes : List (PeerId × IHave M)) : Prop where
  count : pushes.length = min {id | GossipPeer g score topic exclude id}.ncard
    (max g.Dlazy ({id | GossipPeer g score topic exclude id}.ncard / 4))
  distinct : (pushes.map Prod.fst).Nodup
  peers : ∀ push ∈ pushes, GossipPeer g score topic exclude push.1
  topicID : ∀ push ∈ pushes, push.2.topicID = topic
  ids_count : ∀ push ∈ pushes, push.2.messageIDs.length =
    min (g.messageCache.getGossipIDs topic).length relayMaxIHaveLength
  ids_distinct : ∀ push ∈ pushes, push.2.messageIDs.Nodup
  ids_cached : ∀ push ∈ pushes, ∀ m ∈ push.2.messageIDs, m ∈ g.messageCache.getGossipIDs topic

end

theorem floor_gossipTarget (Dlazy n : Nat) : ⌊gossipTarget Dlazy n⌋₊ = max Dlazy (n / 4) := by
  have hfactor : ⌊relayGossipFactor * (n : ℚ)⌋₊ = n / 4 := by
    rw [relayGossipFactor, one_div_mul_eq_div]
    exact Nat.floor_div_eq_div n 4
  simp only [gossipTarget]
  split
  · rename_i hlt
    have hle : Dlazy ≤ n / 4 := by
      rw [← hfactor]
      exact Nat.le_floor hlt.le
    rw [hfactor, Nat.max_eq_right hle]
  · rename_i hge
    have hle : n / 4 ≤ Dlazy := by
      rw [← hfactor]
      exact Nat.floor_le_of_le (not_lt.mp hge)
    rw [Nat.floor_natCast, Nat.max_eq_left hle]

theorem pickedFrom_gossipPeers {shuffle : List PeerId → List PeerId}
    (hperm : ∀ l, (shuffle l).Perm l) (Dlazy : Nat) (peers : List PeerId) :
    PickedFrom (max Dlazy (peers.length / 4)) peers (chooseGossipPeers shuffle Dlazy peers) := by
  rw [← floor_gossipTarget]
  simp only [chooseGossipPeers]
  split
  · rename_i hlt
    rw [slice_zero, List.take_length]
    exact pickedFrom_all (.refl peers) (Nat.le_floor hlt.le)
  · rw [slice_zero]
    exact ⟨shuffle peers, hperm peers, rfl⟩

theorem pickedFrom_messageIDs {M : Type} {shuffle : List M → List M}
    (hperm : ∀ l, (shuffle l).Perm l) {ids messageIDs : List M} (hids : messageIDs.Perm ids) :
    PickedFrom relayMaxIHaveLength ids (chooseMessageIDs shuffle messageIDs) := by
  unfold chooseMessageIDs
  split
  · rw [slice_zero]
    exact ⟨shuffle messageIDs, (hperm messageIDs).trans hids, rfl⟩
  · rename_i hle
    exact pickedFrom_all hids (hids.length_eq ▸ Nat.le_of_not_lt hle)

section

variable {S M : Type} [LinearOrder S] {g : GossipRouter S M} {score : PeerId → S}
  {shuffles : GossipShuffles M} {topic : Topic} {exclude : OrdSet PeerId}

theorem mem_gossipCandidates {id : PeerId} :
    (id ∈ candidates g.toRouter topic fun id =>
      !exclude.has id && !g.direct.has id && decide (g.gossipThreshold ≤ score id)) ↔
      GossipPeer g score topic exclude id := by
  simp only [mem_candidates, Bool.and_eq_true, Bool.not_eq_true', decide_eq_true_eq,
    ← Bool.not_eq_true, OrdSet.has_iff]
  constructor
  · rintro ⟨hrelay, ⟨hexclude, hdirect⟩, hscore⟩
    exact ⟨hrelay, hexclude, hdirect, hscore⟩
  · rintro ⟨hrelay, hexclude, hdirect, hscore⟩
    exact ⟨hrelay, ⟨hexclude, hdirect⟩, hscore⟩

theorem ncard_gossipPeers : {id | GossipPeer g score topic exclude id}.ncard =
    (candidates g.toRouter topic fun id =>
      !exclude.has id && !g.direct.has id && decide (g.gossipThreshold ≤ score id)).length := by
  rw [← List.toFinset_card_of_nodup candidates_nodup, ← Set.ncard_coe_finset]
  congr 1
  ext id
  simp only [Set.mem_ofPred_eq, List.coe_toFinset]
  exact mem_gossipCandidates.symm

theorem gossips_of_known {topicPeers : OrdSet PeerId} (htopic : g.topics topic = some topicPeers)
    (hids : g.messageCache.getGossipIDs topic ≠ []) :
    Gossips g score topic exclude (emitGossip g score shuffles topic exclude) := by
  have hpeers := pickedFrom_gossipPeers shuffles.peers_perm g.Dlazy
    (candidates g.toRouter topic fun id =>
      !exclude.has id && !g.direct.has id && decide (g.gossipThreshold ≤ score id))
  have hchosen : ∀ id, PickedFrom relayMaxIHaveLength (g.messageCache.getGossipIDs topic)
      (chooseMessageIDs (shuffles.peerMessageIDs id)
        (shuffles.messageIDs (g.messageCache.getGossipIDs topic))) := fun id =>
    pickedFrom_messageIDs (shuffles.peerMessageIDs_perm id) (shuffles.messageIDs_perm _)
  have hlength : (g.messageCache.getGossipIDs topic).length ≠ 0 := fun h =>
    hids (List.length_eq_zero_iff.mp h)
  simp only [emitGossip, hlength, ite_false, htopic]
  constructor
  · rw [List.length_map, hpeers.length, ncard_gossipPeers]
  · rw [List.map_map]
    exact (List.map_id _).symm ▸ hpeers.nodup candidates_nodup
  all_goals
    intro push hpush
    obtain ⟨id, hid, rfl⟩ := List.mem_map.mp hpush
  · exact mem_gossipCandidates.mp (hpeers.mem hid)
  · rfl
  · exact (hchosen id).length
  · exact (hchosen id).nodup (g.messageCache.nodup topic)
  · exact fun m hm => (hchosen id).mem hm

theorem emitGossip_gossips :
    ((g.topics topic).isSome ∧ g.messageCache.getGossipIDs topic ≠ [] →
      Gossips g score topic exclude (emitGossip g score shuffles topic exclude)) ∧
    (¬ ((g.topics topic).isSome ∧ g.messageCache.getGossipIDs topic ≠ []) →
      emitGossip g score shuffles topic exclude = []) := by
  constructor
  · rintro ⟨hsome, hids⟩
    obtain ⟨topicPeers, htopic⟩ := Option.isSome_iff_exists.mp hsome
    exact gossips_of_known htopic hids
  · intro hnot
    by_cases hids : g.messageCache.getGossipIDs topic = []
    · simp [emitGossip, hids]
    · have hnone : g.topics topic = none := by
        cases htopic : g.topics topic with
        | none => rfl
        | some topicPeers => exact absurd ⟨by rw [htopic]; rfl, hids⟩ hnot
      simp [emitGossip, hnone]

end

end Relay
end JsWaku
