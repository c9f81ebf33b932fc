import JsWaku.Relay.Separation
import Mathlib.Data.Fintype.EquivFin

/-!
# JsWaku.Relay.Reaching

`getPeers` of `lib/waku_relay/index.ts` promises the peers a message would be published to.

* `sentTo`  — of the peers that `_publish` chooses, those that `_sendRpc` has streams for.
* `Reaches` — while `getPeers` reports somebody, a message of the node's own goes to somebody.
* `reaches_iff` — that fails only for a fanout set that is there but empty.
* `always_reaches` — runs in which no heartbeat and no disconnect leaves such a set.
* `restocks_of_robust` — no other runs keep the promise whoever turns up next, as long as no topic is
  in both maps.
-/

namespace JsWaku
namespace Relay

open Js Trace

section

variable {S : Type} {r : Router S} {topic : Topic} {id : PeerId}

/-- All members of meshes and fanout sets have streams. -/
structure Connected (r : Router S) : Prop where
  mesh : ∀ topic M, r.mesh.get topic = some M → ∀ id, id ∈ M → r.peers id ≠ none
  fanout : ∀ topic f, r.fanout.get topic = some f → ∀ id, id ∈ f → r.peers id ≠ none

/-- A direct peer has streams. -/
def ReachesDirect (r : Router S) : Prop := ∃ id, id ∈ r.direct ∧ r.peers id ≠ none

/-- Nobody is left to publish to, and nobody is looked for. -/
structure Blocked (topic : Topic) (r : Router S) : Prop where
  direct : ¬ ReachesDirect r
  mesh : Meshless r topic
  fanout : ∃ f, r.fanout.get topic = some f ∧ f.size = 0

/-- A fanout set is not empty, or else a direct peer is connected. -/
def Stocked (topic : Topic) (r : Router S) : Prop :=
  ¬ ReachesDirect r → ∀ f, r.fanout.get topic = some f → f.size ≠ 0

theorem Stocked.not_blocked (h : Stocked topic r) : ¬ Blocked topic r := by
  rintro ⟨hdirect, _, f, hf, hsize⟩
  exact h hdirect f hf hsize

theorem Router.Fresh.stocked (h : r.Fresh) (topic : Topic) : Stocked topic r := by
  intro _ f hf
  rw [h.fanout] at hf
  cases hf

theorem Router.Fresh.connected (h : r.Fresh) : Connected r := by
  constructor
  · intro topic M hM
    rw [h.mesh] at hM
    cases hM
  · intro topic f hf
    rw [h.fanout] at hf
    cases hf

theorem RelayPeer.connected (h : RelayPeer r topic id) : r.peers id ≠ none := by
  intro hnone
  have hspeaks := h.2
  simp [Router.speaksRelay, hnone] at hspeaks

theorem connected_change (h : Connected r) (peers : PeerId → Option String)
    (topics : Topic → Option (OrdSet PeerId)) (outbound : PeerId → Bool) :
    Connected (r.change peers topics outbound) := by
  have hstays : ∀ id, r.peers id ≠ none → (!r.loses peers id) = true → peers id ≠ none := by
    intro id hid hstays hnone
    obtain ⟨protocol, hprotocol⟩ := Option.ne_none_iff_exists'.mp hid
    simp [Router.loses, hprotocol, hnone] at hstays
  constructor
  · intro topic s hs id hid
    obtain ⟨M, hM, rfl⟩ := change_mesh hs
    rw [OrdSet.mem_filter] at hid
    exact hstays id (h.mesh topic M hM id hid.1) hid.2
  · intro topic s hs id hid
    obtain ⟨f, hf, rfl⟩ := change_fanout hs
    rw [OrdSet.mem_filter] at hid
    exact hstays id (h.fanout topic f hf id hid.1) hid.2

theorem connected_kept (t : Tick S) (topic : Topic) :
    Kept t topic fun run => ∀ id, id ∈ run.peers → t.router.peers id ≠ none where
  prune _ _ h p hp := h p (mem_prunePeer.mp hp).2
  graft run id hfit h p hp := by
    rcases mem_graftPeer.mp hp with rfl | hp
    · exact hfit.relay.connected
    · exact h p hp
  noPX _ _ h := h

end

section

variable {S : Type} [LinearOrder S]

def getPeers (env : Surroundings S) (pubSubTopic : Topic) (r : Router S) : OrdSet PeerId :=
  getRelayPeers r (env.shuffles.run .getPeers pubSubTopic) pubSubTopic r.options.D (r.publishable env)

/-- What `publish` of the pubsub base makes of a payload. -/
def localMessage (self : PeerId) (pubSubTopic : Topic) : InMessage := ⟨none, self, [pubSubTopic]⟩

/-- `_sendRpc` does nothing for a peer that has no streams. -/
def sentTo (env : Surroundings S) (msg : InMessage) (r : Router S) : List PeerId :=
  (publish env msg r).2.filter fun id => (r.peers id).isSome

def Reaches (env : Surroundings S) (pubSubTopic : Topic) (r : Router S) : Prop :=
  0 < (getPeers env pubSubTopic r).size →
    ∀ self, sentTo env (localMessage self pubSubTopic) r ≠ []

variable {env : Surroundings S} {r : Router S} {topic : Topic} {self : PeerId}

theorem getPeers_pos_iff : 0 < (getPeers env topic r).size ↔
    ∃ id, RelayPeer r topic id ∧ r.publishable env id = true :=
  getRelayPeers_pos_iff (env.shuffles.perm .getPeers topic)

/-- Whom a topic contributes is connected, as nobody else is chosen and whoever disconnects is
forgotten. -/
theorem Connected.targets (h : Connected r) {id : PeerId} (hid : id ∈ targets env topic r) :
    r.peers id ≠ none := by
  by_cases hmesh : Meshless r topic
  · rw [targets_of_meshless hmesh] at hid
    cases hf : fanoutFor env topic r with
    | none =>
      rw [hf] at hid
      exact absurd hid OrdSet.not_mem_empty
    | some f =>
      rw [hf] at hid
      rcases fanoutFor_cases hf with hf | ⟨_, rfl, _⟩
      · exact h.fanout topic f hf id hid
      · exact (of_mem_publishPeers hid).1.connected
  · obtain ⟨M, hM, hsize⟩ := not_meshless_iff.mp hmesh
    rw [targets_of_mesh hM hsize] at hid
    exact h.mesh topic M hM id hid

theorem sentTo_local_iff (hr : Connected r) (hknown : Known r topic) :
    sentTo env (localMessage self topic) r ≠ [] ↔
      ReachesDirect r ∨ (targets env topic r).size ≠ 0 := by
  have hmem : ∀ id, id ∈ sentTo env (localMessage self topic) r ↔
      (id ∈ r.direct ∧ r.peers id ≠ none) ∨ id ∈ targets env topic r := by
    intro id
    have htargets : id ∈ targets env topic r → r.peers id ≠ none := hr.targets
    rw [sentTo, List.mem_filter, mem_publish, Option.isSome_iff_ne_none]
    simp only [localMessage, ne_eq, reduceCtorEq, not_false_eq_true, true_and, List.mem_singleton,
      exists_eq_left, hknown]
    tauto
  rw [← OrdSet.exists_mem_iff, ReachesDirect, ← exists_or, ← exists_congr hmem]
  exact ⟨List.exists_mem_of_ne_nil _, fun ⟨_, h⟩ => List.ne_nil_of_mem h⟩

/-- With somebody to choose, a topic without a mesh has targets unless its fanout set is empty. -/
theorem targets_nonempty_iff {id : PeerId} (hid : RelayPeer r topic id)
    (hscore : r.publishable env id = true) : (targets env topic r).size ≠ 0 ↔
      ¬ (Meshless r topic ∧ ∃ f, r.fanout.get topic = some f ∧ f.size = 0) := by
  by_cases hmesh : Meshless r topic
  · rw [targets_of_meshless hmesh]
    cases hf : r.fanout.get topic with
    | some f => simp [fanoutFor_of_some hf, hmesh]
    | none =>
      have hsome : fanoutFor env topic r ≠ none := by
        intro hnone
        exact (fanoutFor_eq_none_iff hf).mp hnone id hid hscore
      obtain ⟨f, hf'⟩ := Option.ne_none_iff_exists'.mp hsome
      rcases fanoutFor_cases hf' with h | ⟨_, _, hsize⟩
      · rw [h] at hf
        cases hf
      · simp [hf', Nat.ne_of_gt hsize]
  · obtain ⟨M, hM, hsize⟩ := not_meshless_iff.mp hmesh
    simp [targets_of_mesh hM hsize, hsize, hmesh]

theorem reaches_iff (hr : Connected r) : Reaches env topic r ↔
    ((∃ id, RelayPeer r topic id ∧ r.publishable env id = true) → ¬ Blocked topic r) := by
  unfold Reaches
  rw [getPeers_pos_iff]
  refine forall_congr' fun hsome => ?_
  obtain ⟨id, hid, hscore⟩ := hsome
  simp only [sentTo_local_iff hr hid.known, targets_nonempty_iff hid hscore, forall_const]
  constructor
  · rintro h ⟨hdirect, hmesh, hfanout⟩
    exact h.elim (absurd · hdirect) (absurd ⟨hmesh, hfanout⟩)
  · intro h
    by_contra hall
    rw [not_or, not_not] at hall
    exact h ⟨hall.1, hall.2.1, hall.2.2⟩

/-! ## Runs -/

/-- Where no direct peer is connected: of a set that has not expired a heartbeat keeps somebody, or
it finds somebody to add; and somebody of the set is left when peers disconnect. -/
def Restocks (gossipsub : Gossipsub) (topic : Topic) (r : Router S) : Event S → Prop
  | .heartbeat env => ¬ ReachesDirect r → ∀ f, r.fanout.get topic = some f →
      Stale gossipsub env r topic = false →
        (∃ id, id ∈ f ∧ Keeps env r topic id) ∨ 0 < r.options.D ∧ ∃ id, Adds env r topic id
  | .join _ _ => True
  | .publish _ _ => True
  | .change peers _ _ => (∀ id, id ∈ r.direct → peers id = none) →
      ∀ f, r.fanout.get topic = some f → ∃ id, id ∈ f ∧ r.loses peers id = false

variable [Zero S] {gossipsub : Gossipsub} {events : List (Event S)}

theorem stocked_heartbeat_iff : Stocked topic (next gossipsub r (.heartbeat env)) ↔
    Restocks gossipsub topic r (.heartbeat env) := by
  refine forall_congr' fun _ => ?_
  constructor
  · intro h f hf hfresh
    have hround : (heartbeat gossipsub env r).router.fanout.get topic =
        some (fanoutRound (tickOf gossipsub env r) topic f) := by
      rw [heartbeat_fanout, hf]
      simp [hfresh]
    exact fanoutRound_nonempty_iff.mp (h _ hround)
  · intro h f hf
    obtain ⟨f', hf', hfresh, rfl⟩ := heartbeat_fanout_some hf
    exact fanoutRound_nonempty_iff.mpr (h f' hf' hfresh)

theorem stocked_change_iff {peers : PeerId → Option String}
    {topics : Topic → Option (OrdSet PeerId)} {outbound : PeerId → Bool} :
    Stocked topic (next gossipsub r (.change peers topics outbound)) ↔
      Restocks gossipsub topic r (.change peers topics outbound) := by
  have hdirect : ¬ ReachesDirect (next gossipsub r (.change peers topics outbound)) ↔
      ∀ id, id ∈ r.direct → peers id = none := by
    change (¬ ∃ id, id ∈ r.direct ∧ peers id ≠ none) ↔ _
    simp only [not_exists, not_and, not_not]
  have hleft : ∀ f : OrdSet PeerId, (f.filter fun id => !r.loses peers id).size ≠ 0 ↔
      ∃ id, id ∈ f ∧ r.loses peers id = false := by
    intro f
    simp only [← OrdSet.exists_mem_iff, OrdSet.mem_filter, Bool.not_eq_true']
  refine imp_congr hdirect ?_
  constructor
  · intro h f hf
    exact (hleft f).mp (h _ ((OrdMap.get_mapValues _ _ _).trans (congrArg _ hf)))
  · intro h s hs
    obtain ⟨f, hf, rfl⟩ := change_fanout hs
    exact (hleft f).mpr (h f hf)

/-- A join does away with the set, a publish stores none that is empty. -/
theorem stocked_next_iff (e : Event S) (h : Stocked topic r) :
    Stocked topic (next gossipsub r e) ↔ Restocks gossipsub topic r e := by
  cases e with
  | heartbeat env => exact stocked_heartbeat_iff
  | join env topic' =>
    refine iff_of_true ?_ trivial
    rcases next_join_cases gossipsub env topic' r with ⟨_, heq⟩ | ⟨_, _, heq⟩ | ⟨_, _, heq⟩
    · rwa [heq]
    · rw [heq]
      intro hdirect f hf
      exact h hdirect f (OrdMap.get_delete_some hf).2
    · rw [heq]
      exact h
  | publish env msg =>
    refine iff_of_true ?_ trivial
    have hpublished := published_publish env msg r
    intro hdirect f hf
    change ¬ ReachesDirect (publish env msg r).1 at hdirect
    change (publish env msg r).1.fanout.get topic = some f at hf
    rw [hpublished.rest] at hdirect
    rw [hpublished.fanout] at hf
    split at hf
    · rcases fanoutFor_cases hf with hf | ⟨_, _, hsize⟩
      · exact h hdirect f hf
      · exact Nat.ne_of_gt hsize
    · exact h hdirect f hf
  | change peers topics outbound => exact stocked_change_iff

theorem connected_heartbeat (h : Connected r) :
    Connected (next gossipsub r (.heartbeat env)) := by
  constructor
  · intro topic M' hM'
    change (heartbeat gossipsub env r).router.mesh.get topic = some M' at hM'
    cases hM : r.mesh.get topic with
    | none =>
      rw [(heartbeat_other gossipsub env hM).1] at hM'
      cases hM'
    | some M =>
      obtain ⟨c, _, hmesh, _⟩ := heartbeat_round gossipsub env hM
      rw [hmesh] at hM'
      cases hM'
      exact (connected_kept (tickOf gossipsub env r) topic).maintainTopic (h.mesh topic M hM)
  · intro topic f hf id hid
    obtain ⟨f', hf', _, rfl⟩ := heartbeat_fanout_some hf
    rcases mem_fanoutRound hid with ⟨hmem, _⟩ | hadds
    · exact h.fanout topic f' hf' id hmem
    · exact hadds.1.connected

theorem connected_join (h : Connected r) : Connected (next gossipsub r (.join env topic)) := by
  have hjoined : ∀ topic' M, (r.mesh.set topic (joinPeers env topic r)).get topic' = some M →
      ∀ id, id ∈ M → r.peers id ≠ none := by
    intro topic' M hM id hid
    rw [OrdMap.get_set] at hM
    split at hM
    · cases hM
      have hcandidate := candidate_of_mem_joinPeers hid
      unfold JoinCandidate at hcandidate
      split at hcandidate
      · rename_i f hf
        rcases hcandidate with hmem | ⟨_, helig⟩
        · exact h.fanout topic f hf id (OrdSet.mem_filter.mp hmem).1
        · exact helig.1.connected
      · exact hcandidate.1.connected
    · exact h.mesh topic' M hM id hid
  rcases next_join_cases gossipsub env topic r with ⟨_, heq⟩ | ⟨_, _, heq⟩ | ⟨_, _, heq⟩
  · rwa [heq]
  · rw [heq]
    exact ⟨hjoined, fun topic' f hf => h.fanout topic' f (OrdMap.get_delete_some hf).2⟩
  · rw [heq]
    exact ⟨hjoined, h.fanout⟩

theorem connected_next (e : Event S) (h : Connected r) : Connected (next gossipsub r e) := by
  cases e with
  | heartbeat env => exact connected_heartbeat h
  | join env topic => exact connected_join h
  | publish env msg =>
    have hpublished := published_publish env msg r
    change Connected (publish env msg r).1
    have hpeers : (publish env msg r).1.peers = r.peers := by rw [hpublished.rest]
    constructor
    · intro topic M hM
      rw [hpublished.mesh] at hM
      rw [hpeers]
      exact h.mesh topic M hM
    · intro topic f hf id hid
      rw [hpublished.fanout] at hf
      rw [hpeers]
      split at hf
      · rcases fanoutFor_cases hf with hf | ⟨_, rfl, _⟩
        · exact h.fanout topic f hf id hid
        · exact (of_mem_publishPeers hid).1.connected
      · exact h.fanout topic f hf id hid
  | change peers topics outbound => exact connected_change h peers topics outbound

theorem always_connected (hr : r.Fresh) : Always (next gossipsub) Connected r events :=
  always_of_keeps (fun _ e h => connected_next e h) hr.connected events

theorem always_stocked_iff (hr : r.Fresh) : Always (next gossipsub) (Stocked topic) r events ↔
    Throughout (next gossipsub) (Restocks gossipsub topic) r events :=
  always_iff_throughout (fun _ e h => stocked_next_iff e h) (hr.stocked topic)

theorem always_reaches (hr : r.Fresh)
    (h : Throughout (next gossipsub) (Restocks gossipsub topic) r events) :
    Always (next gossipsub) (fun r => ∀ env, Reaches env topic r) r events :=
  (((always_stocked_iff hr).mpr h).and (always_connected hr)).mono
    fun _ hs _ => (reaches_iff hs.2).mpr fun _ => hs.1.not_blocked

end

namespace Emptied

def unsubscribed : Event Int :=
  .change Rejoin.router.peers (fun topic => if topic = "news" then some .empty else none)
    Rejoin.router.outbound

def subscribed : Event Int :=
  .change Rejoin.router.peers Rejoin.router.topics Rejoin.router.outbound

def events : List (Event Int) :=
  [.publish (Rejoin.clock 0 1) ⟨none, "b", ["news"]⟩, unsubscribed,
   .heartbeat (Rejoin.clock 1000 1), subscribed]

end Emptied

theorem always_reaches_lingering :
    0 < (getPeers (Rejoin.clock 0 1) "news" Rejoin.router).size ∧
      Always (next .standard) (fun r => ∀ env, Reaches env "news" r) Rejoin.router
        (Lingering.events ++ [Emptied.subscribed]) := by
  refine ⟨by decide, always_reaches ⟨rfl, rfl, rfl⟩ ⟨trivial, ?_, ?_, trivial⟩⟩
  · intro _ f hf _
    cases hf
    exact .inl ⟨"a", by decide, by decide, by decide⟩
  · intro _ f hf
    cases hf
    exact ⟨"a", by decide, by decide⟩

theorem emptied_fanout_drops : Rejoin.router.Fresh ∧
    ¬ Always (next .standard) (fun r => ∀ env, Reaches env "news" r) Rejoin.router
      Emptied.events := by
  refine ⟨⟨rfl, rfl, rfl⟩, fun h => ?_⟩
  exact h.last (Rejoin.clock 2000 1) (by decide) "b" (by decide)

section

variable {S : Type} [LinearOrder S] {r : Router S} {topic : Topic}

/-- Whoever turns up next, as long as nobody leaves and no direct peer connects. -/
def Robust (topic : Topic) (r : Router S) : Prop :=
  ∀ env peers topics, (∀ id, r.peers id ≠ none → peers id ≠ none) →
    (∀ id, id ∈ r.direct → r.peers id = none → peers id = none) →
      Reaches env topic (r.change peers topics r.outbound)

theorem stocked_of_robust (h : Robust topic r) (hapart : Apart r) (hr : Connected r) :
    Stocked topic r := by
  intro hdirect f hf hsize
  -- A subscriber turns up and has just the score it takes.
  obtain ⟨id, hid⟩ := Infinite.exists_notMem_finset r.direct.toList.toFinset
  rw [List.mem_toFinset] at hid
  let env : Surroundings S :=
    ⟨fun _ => r.options.scoreThresholds.publishThreshold, .identity, 0⟩
  let peers := Function.update r.peers id (some "/vac/waku/relay/2.0.0")
  let r' := r.change peers (fun _ => some (.ofList [id])) r.outbound
  have hother : ∀ p, p ≠ id → peers p = r.peers p := fun p hp => Function.update_of_ne hp _ _
  have hsame : peers id = some "/vac/waku/relay/2.0.0" := Function.update_self ..
  have hstays : ∀ p, r.peers p ≠ none → peers p ≠ none := by
    intro p hp
    by_cases heq : p = id
    · rw [heq, hsame]
      exact Option.some_ne_none _
    · rwa [hother p heq]
  have hdirect' : ∀ p, p ∈ r.direct → peers p = none := by
    intro p hp
    rw [hother p (by rintro rfl; exact hid hp)]
    by_contra hsome
    exact hdirect ⟨p, hp, hsome⟩
  have hreaches := h env peers (fun _ => some (.ofList [id])) hstays fun p hp _ => hdirect' p hp
  refine (reaches_iff (connected_change hr _ _ _)).mp hreaches ⟨id, ⟨?_, ?_⟩, ?_⟩ ⟨?_, ?_, ?_⟩
  · simp [Router.change, Router.subscribed, OrdSet.ofList]
  · simp [Router.change, Router.speaksRelay, relayCodecs, hsame]
  · exact decide_eq_true le_rfl
  · rintro ⟨p, hp, hsome⟩
    exact hsome (hdirect' p hp)
  · intro M hM
    obtain ⟨M', hM', rfl⟩ := change_mesh hM
    have hnone := (hapart topic).resolve_right (by rw [hf]; exact Option.some_ne_none f)
    rw [hnone] at hM'
    cases hM'
  · refine ⟨_, (OrdMap.get_mapValues _ _ _).trans (congrArg _ hf), ?_⟩
    exact Nat.le_zero.mp ((OrdSet.size_filter_le _ _).trans_eq hsize)

variable [Zero S] {gossipsub : Gossipsub} {events : List (Event S)}

theorem restocks_of_robust (hr : r.Fresh) (hapart : Always (next gossipsub) Apart r events)
    (h : Always (next gossipsub) (Robust topic) r events) :
    Throughout (next gossipsub) (Restocks gossipsub topic) r events :=
  (always_stocked_iff hr).mp (((h.and hapart).and (always_connected hr)).mono
    fun _ hs => stocked_of_robust hs.1.1 hs.1.2 hs.2)

end

end Relay
end JsWaku
