import JsWaku.Relay.Gossip
import JsWaku.Relay.MeshChange
import JsWaku.Relay.Publish

/-!
# JsWaku.Relay.Spread

The two ways in which peers learn of a message: it is pushed to some, and announced to others by the
heartbeat.

* `heartbeatGossip` — the announcements of a heartbeat, over all its calls of `_emitGossip`.
* `Addresses` — the peers a topic is looked after by, in the mesh or in the fanout.
* `gossip_complements_push` — what is announced about a topic is announced to the relay peers that a
  message published right afterwards is not sent to, as if they had been left out by name.
-/

namespace JsWaku
namespace Relay

open Js

section

variable {S M : Type} [LinearOrder S]

/-- `shuffles k` is what the `k`-th call draws. `_emitGossip` reads the scores anew. -/
def heartbeatGossip [Zero S] (gossipsub : Gossipsub) (env : Surroundings S) (g : GossipRouter S M)
    (score : PeerId → S) (shuffles : Nat → GossipShuffles M) : List (PeerId × IHave M) :=
  (heartbeat gossipsub env g.toRouter).gossip.zipIdx.flatMap fun call =>
    emitGossip g score (shuffles call.2) call.1.1 call.1.2

/-- The announcements about a topic. -/
def told (topic : Topic) (pushes : List (PeerId × IHave M)) : List (PeerId × IHave M) :=
  pushes.filter fun push => push.2.topicID = topic

/-- The members of the one set that the topic has; an empty mesh is none. -/
inductive Addresses (r : Router S) (topic : Topic) (peers : OrdSet PeerId) : Prop where
  | mesh : r.mesh.get topic = some peers → peers.size ≠ 0 → r.fanout.get topic = none →
      Addresses r topic peers
  | fanout : r.mesh.get topic = none → r.fanout.get topic = some peers → Addresses r topic peers

variable (g : GossipRouter S M) (score : PeerId → S) {topic : Topic} {peers : OrdSet PeerId}

theorem told_emitGossip (shuffles : GossipShuffles M) (topic topic' : Topic)
    (exclude : OrdSet PeerId) :
    told topic (emitGossip g score shuffles topic' exclude) =
      if topic' = topic then emitGossip g score shuffles topic' exclude else [] := by
  have htopic : ∀ push ∈ emitGossip g score shuffles topic' exclude, push.2.topicID = topic' := by
    intro push hpush
    unfold emitGossip at hpush
    simp only at hpush
    split at hpush
    · cases hpush
    · split at hpush
      · cases hpush
      · obtain ⟨id, _, rfl⟩ := List.mem_map.mp hpush
        rfl
  split
  · rename_i heq
    exact List.filter_eq_self.mpr fun push hpush => by simp [htopic push hpush, heq]
  · rename_i hne
    exact List.filter_eq_nil_iff.mpr fun push hpush => by simp [htopic push hpush, hne]

theorem told_calls_other (shuffles : Nat → GossipShuffles M) {calls : List (Topic × OrdSet PeerId)}
    (h : topic ∉ calls.map Prod.fst) (n : Nat) : told topic ((calls.zipIdx n).flatMap fun call =>
      emitGossip g score (shuffles call.2) call.1.1 call.1.2) = [] := by
  induction calls generalizing n with
  | nil => rfl
  | cons call calls ih =>
    obtain ⟨hne, hrest⟩ := not_or.mp (mt List.mem_cons.mpr h)
    have hcall := told_emitGossip g score (shuffles n) topic call.1 call.2
    rw [if_neg (Ne.symm hne)] at hcall
    rw [List.zipIdx_cons, List.flatMap_cons, told, List.filter_append]
    exact List.append_eq_nil_iff.mpr ⟨hcall, ih hrest (n + 1)⟩

/-- The one call about the topic. -/
theorem told_calls (shuffles : Nat → GossipShuffles M) {before after : List (Topic × OrdSet PeerId)}
    (hbefore : topic ∉ before.map Prod.fst) (hafter : topic ∉ after.map Prod.fst) :
    told topic ((before ++ (topic, peers) :: after).zipIdx.flatMap fun call =>
      emitGossip g score (shuffles call.2) call.1.1 call.1.2) =
        emitGossip g score (shuffles before.length) topic peers := by
  have hcall := told_emitGossip g score (shuffles before.length) topic topic peers
  rw [if_pos rfl] at hcall
  have hleft := told_calls_other g score shuffles hbefore 0
  have hright := told_calls_other g score shuffles hafter (before.length + 1)
  unfold told at hcall hleft hright ⊢
  rw [List.zipIdx_append, List.flatMap_append, List.filter_append, hleft, List.zipIdx_cons,
    List.flatMap_cons, List.filter_append, List.nil_append, Nat.zero_add, hcall, hright,
    List.append_nil]

variable {g score}

/-- A message of ours on this topic alone goes to the direct peers and the members of the set. -/
theorem mem_publish_addresses {r : Router S} (h : Addresses r topic peers) (hknown : Known r topic)
    (env' : Surroundings S) {msg : InMessage} (htopic : msg.topicIDs = [topic])
    (hfrom : msg.«from» = none) {id : PeerId} :
    id ∈ (publish env' msg r).2 ↔ id ∈ r.direct ∨ id ∈ peers := by
  have htargets : targets env' topic r = peers := by
    cases h with
    | mesh hmesh hsize _ => exact targets_of_mesh hmesh hsize
    | fanout hmesh hfanout =>
      have hmeshless : Meshless r topic := by
        intro M hM
        rw [hmesh] at hM
        cases hM
      rw [targets_of_meshless hmeshless, fanoutFor_of_some hfanout]
      rfl
  rw [mem_publish, htopic, hfrom]
  simp [hknown, htargets]

/-- It makes no difference whether gossip leaves out the members of the set or the recipients. -/
theorem gossipPeer_recipients {recipients : List PeerId}
    (h : ∀ id, id ∈ recipients ↔ id ∈ g.direct ∨ id ∈ peers) {id : PeerId} :
    GossipPeer g score topic (.ofList recipients) id ↔ GossipPeer g score topic peers id := by
  have hmem : id ∈ OrdSet.ofList recipients ↔ id ∈ g.direct ∨ id ∈ peers := by
    rw [← h id, OrdSet.ofList, OrdSet.mem_foldl_add]
    exact or_iff_left OrdSet.not_mem_empty
  constructor
  · intro hid
    exact ⟨hid.relay, fun hin => hid.included (hmem.mpr (.inr hin)), hid.indirect, hid.score⟩
  · intro hid
    exact ⟨hid.relay, fun hin => (hmem.mp hin).elim hid.indirect hid.included, hid.indirect,
      hid.score⟩

/-! ## A heartbeat -/

variable [Zero S] {gossipsub : Gossipsub} {env : Surroundings S}
  {shuffles : Nat → GossipShuffles M}

/-- The topic has one call, which leaves out the members of its set. -/
theorem told_heartbeatGossip
    (h : Addresses (heartbeat gossipsub env g.toRouter).router topic peers) :
    ∃ k, told topic (heartbeatGossip gossipsub env g score shuffles) =
      emitGossip g score (shuffles k) topic peers := by
  have hcalls : ∃ before after, (heartbeat gossipsub env g.toRouter).gossip =
      before ++ (topic, peers) :: after ∧ topic ∉ before.map Prod.fst ∧
        topic ∉ after.map Prod.fst := by
    have hgossip : (heartbeat gossipsub env g.toRouter).gossip =
        (heartbeat gossipsub env g.toRouter).router.mesh.entries ++
          (heartbeat gossipsub env g.toRouter).router.fanout.entries := rfl
    rw [hgossip]
    cases h with
    | mesh hmesh _ hfanout =>
      obtain ⟨before, after, heq, hbefore, hafter⟩ := OrdMap.entries_of_get hmesh
      refine ⟨before, _, by rw [heq, List.append_assoc, List.cons_append], hbefore, ?_⟩
      rw [List.map_append, List.mem_append]
      exact not_or.mpr ⟨hafter, OrdMap.lookup_eq_none.mp hfanout⟩
    | fanout hmesh hfanout =>
      obtain ⟨before, after, heq, hbefore, hafter⟩ := OrdMap.entries_of_get hfanout
      refine ⟨_, after, by rw [heq, ← List.append_assoc], ?_, hafter⟩
      rw [List.map_append, List.mem_append]
      exact not_or.mpr ⟨OrdMap.lookup_eq_none.mp hmesh, hbefore⟩
  obtain ⟨before, after, heq, hbefore, hafter⟩ := hcalls
  refine ⟨before.length, ?_⟩
  rw [heartbeatGossip, heq]
  exact told_calls g score shuffles hbefore hafter

theorem gossip_complements_push
    (h : Addresses (heartbeat gossipsub env g.toRouter).router topic peers)
    (hknown : Known g.toRouter topic) (hids : g.messageCache.getGossipIDs topic ≠ [])
    (env' : Surroundings S) {msg : InMessage} (htopic : msg.topicIDs = [topic])
    (hfrom : msg.«from» = none) :
    Gossips g score topic
      (.ofList (publish env' msg (heartbeat gossipsub env g.toRouter).router).2)
      (told topic (heartbeatGossip gossipsub env g score shuffles)) := by
  obtain ⟨k, htold⟩ : ∃ k, told topic (heartbeatGossip gossipsub env g score shuffles) =
      emitGossip g score (shuffles k) topic peers := told_heartbeatGossip h
  obtain ⟨topicPeers, htopics⟩ := Option.ne_none_iff_exists'.mp hknown
  have hgossips : Gossips g score topic peers (emitGossip g score (shuffles k) topic peers) :=
    gossips_of_known htopics hids
  have hpeer : ∀ id, GossipPeer g score topic
      (.ofList (publish env' msg (heartbeat gossipsub env g.toRouter).router).2) id ↔
        GossipPeer g score topic peers id := fun id =>
    gossipPeer_recipients fun id => mem_publish_addresses h hknown env' htopic hfrom
  rw [htold]
  refine { hgossips with count := ?_, peers := fun push hpush => ?_ }
  · simp only [hpeer]
    exact hgossips.count
  · exact (hpeer push.1).mpr (hgossips.peers push hpush)

end

namespace Beside

def subscribers : OrdSet PeerId := .ofList ["a", "b"]

def router : GossipRouter Int Nat where
  options := ⟨1, 1, 1, 1, 0, ⟨-50, 20⟩⟩
  peers id := if subscribers.has id then some "/vac/waku/relay/2.0.0" else none
  topics topic := if topic = "news" then some subscribers else none
  direct := .empty
  outbound _ := false
  backoff _ _ := none
  mesh := ⟨[("news", .ofList ["a"])], by decide⟩
  fanout := .empty
  lastpub := .empty
  heartbeatTicks := 0
  started := true
  Dlazy := 6
  gossipThreshold := -10
  messageCache := ⟨fun _ => [7], fun _ => List.nodup_singleton 7⟩

def env : Surroundings Int := ⟨fun _ => 0, .identity, 0⟩

def shuffles (_ : Nat) : GossipShuffles Nat :=
  ⟨id, id, fun _ => id, fun _ => .refl _, fun _ => .refl _, fun _ _ => .refl _⟩

theorem addresses : Addresses (heartbeat .standard env router.toRouter).router "news"
    (.ofList ["a"]) := .mesh rfl (by decide) rfl

end Beside

theorem gossip_complements_push_beside :
    told "news" (heartbeatGossip .standard Beside.env Beside.router (fun _ => 0) Beside.shuffles) =
      [("b", ⟨"news", [7]⟩)] ∧
    Gossips Beside.router (fun _ => 0) "news"
      (.ofList (publish Beside.env ⟨none, "self", ["news"]⟩
        (heartbeat .standard Beside.env Beside.router.toRouter).router).2)
      (told "news"
        (heartbeatGossip .standard Beside.env Beside.router (fun _ => 0) Beside.shuffles)) :=
  ⟨by decide +kernel, gossip_complements_push Beside.addresses (by decide) (by decide) Beside.env rfl rfl⟩

end Relay
end JsWaku
