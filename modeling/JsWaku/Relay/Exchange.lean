import JsWaku.Js.Bytes
import JsWaku.Relay.MeshChange
import Mathlib.Data.Set.Card

/-!
# JsWaku.Relay.Exchange

`WakuRelay._makePrune` (`waku_relay/index.ts`): the PRUNE a peer is sent, which may name others it
can turn to. Whether it does is up to `libp2p-gossipsub`, which goes by the map `noPX` that the
heartbeat hands it.

* `noPX_iff` — the heartbeat puts in that map the members of a mesh that had a negative score.
* `Exchange` — the peers a PRUNE names: up to 16 relay peers of the topic with a score of at least
  0, all of them if there are fewer, and not the peer itself.
* `heartbeat_exchange` — what the PRUNEs of a heartbeat name, for whatever scores and shuffles.
-/

namespace JsWaku
namespace Relay

open Js

def relayPrunePeers : Nat := 16

/-- `peer-id` and the address book of the peer store. -/
structure PeerStore where
  toBytes : PeerId → Bytes
  getRawEnvelope : PeerId → Option Bytes

structure PeerInfo where
  peerID : Bytes
  signedPeerRecord : Option Bytes
  deriving DecidableEq, Repr

/-- `backoff` is in seconds. -/
structure ControlPrune where
  topicID : Topic
  peers : List PeerInfo
  backoff : Int
  deriving DecidableEq, Repr

def PeerStore.info (store : PeerStore) (p : PeerId) : PeerInfo :=
  ⟨store.toBytes p, store.getRawEnvelope p⟩

section

variable {S : Type} [LinearOrder S] [Zero S]

def makePrune (store : PeerStore) (r : Router S) (score : PeerId → S)
    (shuffle : List PeerId → List PeerId) (id : PeerId) (topic : Topic) (doPX : Bool) :
    ControlPrune where
  topicID := topic
  peers :=
    if doPX then
      (getRelayPeers r shuffle topic relayPrunePeers fun xid =>
        decide (xid ≠ id) && decide (0 ≤ score xid)).toList.map store.info
    else []
  backoff := relayPruneBackoff / 1000

/-- A peer that `id` may be told of. -/
structure Offered (r : Router S) (score : PeerId → S) (topic : Topic) (id xid : PeerId) : Prop where
  relay : RelayPeer r topic xid
  other : xid ≠ id
  score : 0 ≤ score xid

structure Exchange (r : Router S) (score : PeerId → S) (topic : Topic) (id : PeerId)
    (peers : List PeerId) : Prop where
  distinct : peers.Nodup
  offered : ∀ xid ∈ peers, Offered r score topic id xid
  count : peers.length = min relayPrunePeers {xid | Offered r score topic id xid}.ncard

variable {store : PeerStore} {r : Router S} {score : PeerId → S} {topic : Topic} {id : PeerId}
  {shuffle : List PeerId → List PeerId}

theorem mem_offeredCandidates {xid : PeerId} : (xid ∈ candidates r topic fun xid =>
    decide (xid ≠ id) && decide (0 ≤ score xid)) ↔ Offered r score topic id xid := by
  rw [mem_candidates, Bool.and_eq_true, decide_eq_true_eq, decide_eq_true_eq]
  constructor
  · rintro ⟨hrelay, hother, hscore⟩
    exact ⟨hrelay, hother, hscore⟩
  · intro h
    exact ⟨h.relay, h.other, h.score⟩

theorem ncard_offered : {xid | Offered r score topic id xid}.ncard =
    (candidates r topic fun xid => decide (xid ≠ id) && decide (0 ≤ score xid)).length := by
  rw [← List.toFinset_card_of_nodup candidates_nodup, ← Set.ncard_coe_finset]
  congr 1
  ext xid
  simp only [Set.mem_ofPred_eq, List.coe_toFinset]
  exact mem_offeredCandidates.symm

theorem makePrune_exchange (hperm : ∀ l, (shuffle l).Perm l) : ∃ peers,
    (makePrune store r score shuffle id topic true).peers = peers.map store.info ∧
      Exchange r score topic id peers := by
  refine ⟨_, rfl, OrdSet.nodup _, ?_, ?_⟩
  · intro xid hxid
    exact mem_offeredCandidates.mp (mem_candidates.mpr (of_mem_getRelayPeers hperm hxid))
  · have hsize := size_getRelayPeers hperm (by decide : (0 : Int) < relayPrunePeers) r topic
      fun xid => decide (xid ≠ id) && decide (0 ≤ score xid)
    rw [OrdSet.size] at hsize
    rw [ncard_offered]
    omega

end

section

variable {S : Type} {t : Tick S} {topic : Topic} {run : MeshRun} {xs : List PeerId} {id p : PeerId}

@[simp] theorem noPX_prunes :
    (xs.foldl (prunePeer t topic) run).control.noPX = run.control.noPX :=
  foldl_keeps (fun _ _ _ h => h) (I := fun r => r.control.noPX = run.control.noPX) rfl

@[simp] theorem noPX_grafts :
    (xs.foldl (graftPeer topic) run).control.noPX = run.control.noPX :=
  foldl_keeps (fun _ _ _ h => h) (I := fun r => r.control.noPX = run.control.noPX) rfl

variable [LinearOrder S]

theorem noPX_cutDown : (cutDown t topic run).control.noPX = run.control.noPX := by
  rcases cutDown_cases t topic run with ⟨heq, _⟩ | ⟨_, heq⟩
  · rw [heq]
  · rw [heq, noPX_prunes]

theorem noPX_opportunisticGraft :
    (opportunisticGraft t topic run).control.noPX = run.control.noPX := by
  rcases opportunisticGraft_cases t topic run with ⟨heq, _⟩ | ⟨_, xs, _, _, heq⟩
  · rw [heq]
  · rw [heq, noPX_grafts]

variable [Zero S]

theorem noPX_refilled {run' : MeshRun} (hr : Refilled t topic run run') :
    run'.control.noPX = run.control.noPX := by
  cases hr with
  | same => rfl
  | grafts draw count => exact noPX_grafts

/-- The round on one member, apart from the prune, writes down its negative score. -/
theorem noPX_dropNegative : (dropNegative t topic run).control.noPX id = true ↔
    run.control.noPX id = true ∨ id ∈ run.peers ∧ t.score (some id) < 0 := by
  have hround : ∀ (l : List PeerId) (run : MeshRun), (l.foldl (fun run id =>
      if t.score (some id) < 0 then
        let run := prunePeer t topic run id
        { run with control := { run.control with
            noPX := fun p => if p = id then true else run.control.noPX p } }
      else run) run).control.noPX id = true ↔
        run.control.noPX id = true ∨ id ∈ l ∧ t.score (some id) < 0 := by
    intro l
    induction l with
    | nil => simp
    | cons x l ih =>
      intro run
      rw [List.foldl_cons, ih, List.mem_cons]
      by_cases hid : id = x
      · subst hid
        by_cases hneg : t.score (some id) < 0
        · simp [hneg]
        · simp [hneg]
      · by_cases hneg : t.score (some x) < 0
        · simp [hneg, hid, prunePeer]
        · simp [hneg, hid]
  exact hround run.peers.toList run

theorem noPX_meshRound (t : Tick S) (topic : Topic) (peers : OrdSet PeerId) (c : Control) :
    (meshRound t topic peers c).2.noPX id = true ↔
      c.noPX id = true ∨ id ∈ peers ∧ t.score (some id) < 0 := by
  have hnoPX : (maintainTopic t topic ⟨peers, c⟩).control.noPX =
      (dropNegative t topic ⟨peers, c⟩).control.noPX := by
    rw [maintainTopic, noPX_opportunisticGraft, maintainDegree,
      noPX_refilled (refilled_topUpOutbound t topic _), noPX_cutDown,
      noPX_refilled (refilled_fillUp t topic _)]
  change (maintainTopic t topic ⟨peers, c⟩).control.noPX id = true ↔ _
  rw [hnoPX]
  exact noPX_dropNegative

/-- Everyone in the mesh or pruned from it was a member already or has no negative score. -/
structure Warned (t : Tick S) (topic : Topic) (M : OrdSet PeerId) (run : MeshRun) : Prop where
  member : ∀ p, p ∈ run.peers → p ∈ M ∨ 0 ≤ t.score (some p)
  pruned : ∀ p, topic ∈ run.control.toPrune p → p ∈ M ∨ 0 ≤ t.score (some p)

variable {M : OrdSet PeerId}

theorem Warned.prune (h : Warned t topic M run) (hid : id ∈ M ∨ 0 ≤ t.score (some id)) :
    Warned t topic M (prunePeer t topic run id) where
  member p hp := h.member p (mem_prunePeer.mp hp).2
  pruned p hp := (mem_push.mp hp).elim (fun he => he ▸ hid) (h.pruned p)

theorem Warned.prunes (h : Warned t topic M run) (hxs : ∀ x ∈ xs, x ∈ run.peers) :
    Warned t topic M (xs.foldl (prunePeer t topic) run) :=
  foldl_keeps (fun _ x hx h' => h'.prune (h.member x (hxs x hx))) h

theorem Warned.graft (h : Warned t topic M run) (hid : id ∈ M ∨ 0 ≤ t.score (some id)) :
    Warned t topic M (graftPeer topic run id) where
  member p hp := (mem_graftPeer.mp hp).elim (fun he => he ▸ hid) (h.member p)
  pruned p hp := h.pruned p hp

theorem Warned.dropNegative (h : Warned t topic M run) :
    Warned t topic M (dropNegative t topic run) := by
  obtain ⟨noPX, heq⟩ := dropNegative_eq t topic run
  have hpruned : Warned t topic M ((negatives t run.peers).foldl (prunePeer t topic) run) :=
    h.prunes fun x hx => List.mem_of_mem_filter hx
  rw [heq]
  exact ⟨hpruned.member, hpruned.pruned⟩

theorem Warned.refilled {run' : MeshRun} (h : Warned t topic M run)
    (hr : Refilled t topic run run') : Warned t topic M run' := by
  cases hr with
  | same => exact h
  | grafts draw count =>
    exact foldl_keeps (fun _ x hx h' => h'.graft (.inr (fit_of_mem_relayPeers hx).2.2)) h

theorem Warned.cutDown (h : Warned t topic M run) : Warned t topic M (cutDown t topic run) := by
  rcases cutDown_cases t topic run with ⟨heq, _⟩ | ⟨_, heq⟩
  · rwa [heq]
  · rw [heq]
    exact h.prunes fun x hx => mem_of_mem_excess hx

theorem Warned.opportunisticGraft (h : Warned t topic M run) :
    Warned t topic M (opportunisticGraft t topic run) := by
  rcases opportunisticGraft_cases t topic run with ⟨heq, _⟩ | ⟨_, xs, _, hxs, heq⟩
  · rwa [heq]
  · rw [heq]
    exact foldl_keeps (fun _ x hx h' => h'.graft (h.member x (hxs x hx).1)) h

theorem Warned.maintainTopic (h : Warned t topic M run) :
    Warned t topic M (maintainTopic t topic run) :=
  (((h.dropNegative.refilled (refilled_fillUp t topic _)).cutDown).refilled
    (refilled_topUpOutbound t topic _)).opportunisticGraft

end

/-! ## The PRUNEs of a heartbeat -/

section

variable {S : Type} [LinearOrder S] [Zero S] {gossipsub : Gossipsub} {env : Surroundings S}
  {r : Router S} {topic : Topic} {id : PeerId}

theorem noPX_iff : (heartbeat gossipsub env r).noPX id = true ↔
    env.score (some id) < 0 ∧ ∃ topic M, r.mesh.get topic = some M ∧ id ∈ M := by
  have hloop := OrdMap.mapAccum_exists (P := fun c : Control => c.noPX id = true)
    (Q := fun _ peers => id ∈ peers ∧ env.score (some id) < 0)
    (fun topic peers c => noPX_meshRound (tickOf gossipsub env r) topic peers c) r.mesh
    (tickOf gossipsub env r).start
  refine hloop.trans ?_
  constructor
  · rintro (h | ⟨topic, M, hM, hmem, hneg⟩)
    · cases h
    · exact ⟨hneg, topic, M, hM, hmem⟩
  · rintro ⟨hneg, topic, M, hM, hmem⟩
    exact .inr ⟨topic, M, hM, hmem, hneg⟩

/-- Of those who are pruned, the ones with a negative score. -/
theorem noPX_of_pruned (h : topic ∈ (heartbeat gossipsub env r).toPrune id) :
    (heartbeat gossipsub env r).noPX id = true ↔ env.score (some id) < 0 := by
  rw [noPX_iff]
  refine and_iff_left_of_imp fun hneg => ?_
  cases hM : r.mesh.get topic with
  | none => cases (heartbeat_other gossipsub env hM).2.mem_toPrune.mp h
  | some M =>
    obtain ⟨c, hbefore, _, hafter⟩ := heartbeat_round gossipsub env hM
    have hstart : Warned (tickOf gossipsub env r) topic M ⟨M, c⟩ :=
      ⟨fun p hp => .inl hp, fun p hp => nomatch hbefore.mem_toPrune.mp hp⟩
    have hpruned := hafter.mem_toPrune.mp h
    exact ⟨topic, M, hM, (hstart.maintainTopic.pruned id hpruned).resolve_right hneg.not_ge⟩

/-- `wanted` is the option of gossipsub; `score` is read anew, after the heartbeat. -/
theorem heartbeat_exchange (store : PeerStore) (score : PeerId → S)
    {shuffle : List PeerId → List PeerId} (hperm : ∀ l, (shuffle l).Perm l) {wanted doPX : Bool}
    (hprune : topic ∈ (heartbeat gossipsub env r).toPrune id)
    (hdoPX : doPX = (wanted && !(heartbeat gossipsub env r).noPX id)) :
    (wanted = true ∧ 0 ≤ env.score (some id) → ∃ peers,
      (makePrune store (heartbeat gossipsub env r).router score shuffle id topic doPX).peers =
        peers.map store.info ∧ Exchange (heartbeat gossipsub env r).router score topic id peers) ∧
    (¬ (wanted = true ∧ 0 ≤ env.score (some id)) →
      (makePrune store (heartbeat gossipsub env r).router score shuffle id topic doPX).peers = []) := by
  have hnoPX := noPX_of_pruned hprune
  constructor
  · rintro ⟨rfl, hscore⟩
    have hfalse : (heartbeat gossipsub env r).noPX id = false :=
      Bool.eq_false_iff.mpr fun h => (hnoPX.mp h).not_ge hscore
    rw [hdoPX, hfalse]
    exact makePrune_exchange hperm
  · intro hnot
    have hfalse : doPX = false := by
      rw [hdoPX, Bool.and_eq_false_iff, Bool.not_eq_false']
      by_cases hwanted : wanted = true
      · exact .inr (hnoPX.mpr (not_le.mp fun hscore => hnot ⟨hwanted, hscore⟩))
      · exact .inl (Bool.eq_false_iff.mpr hwanted)
    rw [hfalse]
    rfl

end

namespace TwoMembers

def members : OrdSet PeerId := .ofList ["a", "b"]

def router : Router Int where
  options := ⟨1, 1, 1, 1, 0, ⟨-50, 20⟩⟩
  peers id := if members.has id then some "/vac/waku/relay/2.0.0" else none
  topics topic := if topic = "news" then some members else none
  direct := .empty
  outbound _ := false
  backoff _ _ := none
  mesh := ⟨[("news", members)], by decide⟩
  fanout := .empty
  lastpub := .empty
  heartbeatTicks := 0
  started := true

def env : Surroundings Int := ⟨fun _ => 0, .identity, 0⟩

/-- No records. -/
def store : PeerStore := ⟨fun id => id.toUTF8.toList, fun _ => none⟩

end TwoMembers

theorem heartbeat_exchange_two : ∃ peers, (makePrune TwoMembers.store
    (heartbeat .standard TwoMembers.env TwoMembers.router).router (fun _ => 0) id "b" "news"
      true).peers = peers.map TwoMembers.store.info ∧
    Exchange (heartbeat .standard TwoMembers.env TwoMembers.router).router (fun _ => 0) "news" "b" peers := by
  have hprune : "news" ∈ (heartbeat .standard TwoMembers.env TwoMembers.router).toPrune "b" := by
    decide
  have hdoPX : true =
      (true && !(heartbeat .standard TwoMembers.env TwoMembers.router).noPX "b") := by decide
  exact (heartbeat_exchange TwoMembers.store (fun _ => 0) (fun _ => .refl _) hprune hdoPX).1
    ⟨rfl, le_refl 0⟩

end Relay
end JsWaku
