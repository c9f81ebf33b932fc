import JsWaku.Js.Value
import JsWaku.Relay.Router

/-!
# JsWaku.Relay.JoinPublish

`join` and `_publish` of `lib/waku_relay/index.ts`.

* `join_ok` — what a join of a started router does.
* `JoinCandidate` — the peers `join` chooses from.
* `joinCandidate_iff` — over all shuffles, it may choose any of them and nobody else.
-/

namespace JsWaku
namespace Relay

open Js

section

variable {S : Type} [LinearOrder S] [Zero S]

/-- The peers of a fanout set without those of a negative score. -/
def nonnegative (env : Surroundings S) (fanoutPeers : OrdSet PeerId) : OrdSet PeerId :=
  fanoutPeers.filter fun id => !decide (env.score (some id) < 0)

def joinPeers (env : Surroundings S) (topic : Topic) (r : Router S) : OrdSet PeerId :=
  match r.fanout.get topic with
  | some fanoutPeers =>
    let fanoutPeers := nonnegative env fanoutPeers
    if fanoutPeers.size < r.options.D then
      let ineed : Int := r.options.D - fanoutPeers.size
      (getRelayPeers r (env.shuffles.run .join topic) topic ineed fun id =>
        !fanoutPeers.has id && !r.direct.has id &&
          decide (0 ≤ env.score (some id))).toList.foldl OrdSet.add fanoutPeers
    else fanoutPeers
  | none =>
    getRelayPeers r (env.shuffles.run .join topic) topic r.options.D fun id =>
      !r.direct.has id && decide (0 ≤ env.score (some id))

/-- The router afterwards and the calls of `_sendGraft`. -/
def join (env : Surroundings S) (topic : Topic) (r : Router S) :
    Except Thrown (Router S × List Graft) :=
  if r.started then
    let peers := joinPeers env topic r
    let r' := match r.fanout.get topic with
      | some _ => { r with
          mesh := r.mesh.set topic peers
          fanout := r.fanout.delete topic
          lastpub := r.lastpub.delete topic }
      | none => { r with mesh := r.mesh.set topic peers }
    .ok (r', peers.toList.map fun id => ⟨id, topic, r'.backoff topic id⟩)
  else .error (.error "WakuRelayPubSub has not started")

/-- What a join changes. -/
structure Joined (env : Surroundings S) (topic : Topic) (r r' : Router S) : Prop where
  mesh : r'.mesh.get topic = some (joinPeers env topic r)
  mesh_other : ∀ topic', topic ≠ topic' → r'.mesh.get topic' = r.mesh.get topic'
  fanout : r'.fanout.get topic = none
  fanout_other : ∀ topic', topic ≠ topic' → r'.fanout.get topic' = r.fanout.get topic'
  backoff : r'.backoff = r.backoff

theorem join_ok {env : Surroundings S} {topic : Topic} {r : Router S} (h : r.started = true) :
    ∃ r', Joined env topic r r' ∧ join env topic r =
      .ok (r', (joinPeers env topic r).toList.map fun id => ⟨id, topic, r.backoff topic id⟩) := by
  simp only [join, h, ite_true]
  cases hfanout : r.fanout.get topic with
  | some fanoutPeers =>
    refine ⟨_, ?_, rfl⟩
    refine ⟨OrdMap.get_set_self _ _ _, ?_, OrdMap.get_delete_self _ _, ?_, rfl⟩
    · intro topic' hne
      exact OrdMap.get_set_of_ne hne _ _
    · intro topic' hne
      exact OrdMap.get_delete_of_ne hne _
  | none =>
    refine ⟨_, ?_, rfl⟩
    refine ⟨OrdMap.get_set_self _ _ _, ?_, hfanout, fun _ _ => rfl, rfl⟩
    intro topic' hne
    exact OrdMap.get_set_of_ne hne _ _

/-! ## Publish -/

/-- What `_publish` reads of a message; whom it was received from matters to scores only. -/
structure InMessage where
  «from» : Option PeerId
  receivedFrom : PeerId
  topicIDs : List Topic

/-- The fanout set of a topic, chosen now if there is none. -/
def publishFanout (env : Surroundings S) (topic : Topic) (r : Router S) :
    Router S × OrdSet PeerId :=
  let (r, meshPeers) := match r.fanout.get topic with
    | some fanoutPeers => (r, fanoutPeers)
    | none =>
      let peers := getRelayPeers r (env.shuffles.run .publish topic) topic r.options.D fun id =>
        decide (r.options.scoreThresholds.publishThreshold ≤ env.score (some id))
      if 0 < peers.size then ({ r with fanout := r.fanout.set topic peers }, peers)
      else (r, .empty)
  ({ r with lastpub := r.lastpub.set topic env.now }, meshPeers)

/-- One round of `topicIDs.forEach`. -/
def publishTopic (env : Surroundings S) (run : Router S × OrdSet PeerId) (topic : Topic) :
    Router S × OrdSet PeerId :=
  let (r, toSend) := run
  match r.topics topic with
  | none => (r, toSend)
  | some _ =>
    let toSend := r.direct.toList.foldl OrdSet.add toSend
    let (r, meshPeers) := match r.mesh.get topic with
      | some meshPeers => if meshPeers.size = 0 then publishFanout env topic r else (r, meshPeers)
      | none => publishFanout env topic r
    (r, meshPeers.toList.foldl OrdSet.add toSend)

/-- The router afterwards and the peers the message is sent to. -/
def publish (env : Surroundings S) (msg : InMessage) (r : Router S) : Router S × List PeerId :=
  let (r, toSend) := msg.topicIDs.foldl (publishTopic env) (r, .empty)
  (r, toSend.toList.filter fun id => some id ≠ msg.from)

def JoinEligible (env : Surroundings S) (r : Router S) (topic : Topic) (id : PeerId) : Prop :=
  RelayPeer r topic id ∧ ¬ id ∈ r.direct ∧ 0 ≤ env.score (some id)

/-- A fanout peer without a negative score or, if these are fewer than `D`, any eligible peer. -/
def JoinCandidate (env : Surroundings S) (r : Router S) (topic : Topic) (id : PeerId) : Prop :=
  match r.fanout.get topic with
  | some fanoutPeers => id ∈ nonnegative env fanoutPeers ∨
      (nonnegative env fanoutPeers).size < r.options.D ∧ JoinEligible env r topic id
  | none => JoinEligible env r topic id

variable {env : Surroundings S} {r : Router S} {topic : Topic} {id : PeerId}

theorem candidate_of_mem_joinPeers (h : id ∈ joinPeers env topic r) :
    JoinCandidate env r topic id := by
  have hperm := env.shuffles.perm .join topic
  unfold joinPeers at h
  unfold JoinCandidate
  split at h
  · simp only at h
    split at h
    · rename_i hfew
      rcases OrdSet.mem_foldl_add.mp h with h | h
      · obtain ⟨hrelay, hfilter⟩ := of_mem_getRelayPeers hperm h
        simp only [Bool.and_eq_true, Bool.not_eq_true', OrdSet.has, decide_eq_false_iff_not,
          decide_eq_true_eq] at hfilter
        exact .inr ⟨hfew, hrelay, hfilter.1.2, hfilter.2⟩
      · exact .inl h
    · exact .inl h
  · obtain ⟨hrelay, hfilter⟩ := of_mem_getRelayPeers hperm h
    simp only [Bool.and_eq_true, Bool.not_eq_true', OrdSet.has, decide_eq_false_iff_not,
      decide_eq_true_eq] at hfilter
    exact ⟨hrelay, hfilter.1, hfilter.2⟩

/-- The favoured candidate is chosen. -/
theorem mem_joinPeers_favouring (h : JoinCandidate env r topic id) :
    id ∈ joinPeers { env with shuffles := .favouring id } topic r := by
  unfold JoinCandidate at h
  unfold joinPeers
  split at h
  · rename_i fanoutPeers _
    simp only
    split
    · rw [OrdSet.mem_foldl_add]
      by_cases hmem : id ∈ nonnegative env fanoutPeers
      · exact .inr hmem
      · obtain ⟨_, hrelay, hindirect, hscore⟩ := h.resolve_left hmem
        refine .inl (mem_getRelayPeers_favouring _ _ hrelay ?_)
        simp only [OrdSet.has, Bool.and_eq_true, Bool.not_eq_true', decide_eq_false_iff_not,
          decide_eq_true_eq]
        exact ⟨⟨hmem, hindirect⟩, hscore⟩
    · rename_i hmany
      exact h.resolve_right fun h => hmany h.1
  · refine mem_getRelayPeers_favouring _ _ h.1 ?_
    simpa [OrdSet.has] using h.2

/-- Over all shuffles, any candidate may be chosen and nobody else. -/
theorem joinCandidate_iff :
    JoinCandidate env r topic id ↔
      ∃ shuffles, id ∈ joinPeers { env with shuffles := shuffles } topic r := by
  constructor
  · intro h
    exact ⟨_, mem_joinPeers_favouring h⟩
  · rintro ⟨shuffles, h⟩
    exact @candidate_of_mem_joinPeers S _ _ { env with shuffles := shuffles } r topic id h

end

end Relay
end JsWaku
