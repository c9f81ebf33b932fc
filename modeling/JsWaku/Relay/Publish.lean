import JsWaku.Relay.JoinPublish
import Mathlib.Data.List.Induction

/-!
# JsWaku.Relay.Publish

What a whole `_publish` does, over all the topics its message lists.

* `targets`   — the peers a topic contributes: its mesh, or its fanout set, or a fresh selection.
* `Published` — the router afterwards.
* `mem_publish` — the peers the message is sent to.
* `publish_delivers_iff` — they are the intended ones unless the message goes back to its sender.
-/

namespace JsWaku
namespace Relay

open Js

section

variable {S : Type}

/-- `!meshPeers || !meshPeers.size` -/
def Meshless (r : Router S) (topic : Topic) : Prop :=
  ∀ M, r.mesh.get topic = some M → M.size = 0

/-- The topic has an entry of peers, the round on it is not cut short. -/
def Known (r : Router S) (topic : Topic) : Prop := r.topics topic ≠ none

instance (r : Router S) (topic : Topic) : Decidable (Meshless r topic) :=
  match h : r.mesh.get topic with
  | none => isTrue (by intro M hM; rw [h] at hM; cases hM)
  | some M => decidable_of_iff (M.size = 0)
      ⟨by intro hsize M' hM'; rw [h] at hM'; cases hM'; exact hsize, fun hall => hall M h⟩

instance (r : Router S) (topic : Topic) : Decidable (Known r topic) :=
  match h : r.topics topic with
  | none => isFalse (absurd h)
  | some _ => isTrue (by rw [Known, h]; exact Option.some_ne_none _)

theorem RelayPeer.known {r : Router S} {topic : Topic} {id : PeerId} (h : RelayPeer r topic id) :
    Known r topic := by
  intro hnone
  have hsub := h.1
  simp only [Router.subscribed, hnone] at hsub
  cases hsub

/-- A message with these topics puts its hands on the fanout of `topic`. -/
def Fans (r : Router S) (topicIDs : List Topic) (topic : Topic) : Prop :=
  topic ∈ topicIDs ∧ Known r topic ∧ Meshless r topic

instance (r : Router S) (topicIDs : List Topic) (topic : Topic) : Decidable (Fans r topicIDs topic) :=
  inferInstanceAs (Decidable (_ ∧ _ ∧ _))

theorem not_meshless_iff {r : Router S} {topic : Topic} :
    ¬ Meshless r topic ↔ ∃ M, r.mesh.get topic = some M ∧ M.size ≠ 0 := by
  simp [Meshless]

theorem fans_singleton {r : Router S} {topic t : Topic} (hknown : Known r topic)
    (hmesh : Meshless r topic) : Fans r [topic] t ↔ topic = t := by
  constructor
  · intro h
    exact (List.mem_singleton.mp h.1).symm
  · rintro rfl
    exact ⟨List.mem_singleton_self _, hknown, hmesh⟩

theorem fans_append {r : Router S} {topicIDs topicIDs' : List Topic} {topic : Topic} :
    Fans r (topicIDs ++ topicIDs') topic ↔ Fans r topicIDs topic ∨ Fans r topicIDs' topic := by
  simp only [Fans, List.mem_append]
  tauto

variable [LinearOrder S]

def Router.publishable (r : Router S) (env : Surroundings S) (id : PeerId) : Bool :=
  decide (r.options.scoreThresholds.publishThreshold ≤ env.score (some id))

def publishPeers (env : Surroundings S) (topic : Topic) (r : Router S) : OrdSet PeerId :=
  getRelayPeers r (env.shuffles.run .publish topic) topic r.options.D (r.publishable env)

/-- The fanout set found or, if there is somebody to choose, chosen. -/
def fanoutFor (env : Surroundings S) (topic : Topic) (r : Router S) : Option (OrdSet PeerId) :=
  match r.fanout.get topic with
  | some fanoutPeers => some fanoutPeers
  | none => if 0 < (publishPeers env topic r).size then some (publishPeers env topic r) else none

def targets (env : Surroundings S) (topic : Topic) (r : Router S) : OrdSet PeerId :=
  match r.mesh.get topic with
  | some M => if M.size = 0 then (fanoutFor env topic r).getD .empty else M
  | none => (fanoutFor env topic r).getD .empty

variable {env : Surroundings S} {r r' r'' : Router S} {topic topic' : Topic} {topicIDs : List Topic}

theorem targets_of_meshless (h : Meshless r topic) :
    targets env topic r = (fanoutFor env topic r).getD .empty := by
  unfold targets
  split
  · rename_i M hM
    rw [if_pos (h M hM)]
  · rfl

theorem targets_of_mesh {M : OrdSet PeerId} (hM : r.mesh.get topic = some M) (hsize : M.size ≠ 0) :
    targets env topic r = M := by
  simp only [targets, hM, if_neg hsize]

theorem fanoutFor_of_some {f : OrdSet PeerId} (h : r.fanout.get topic = some f) :
    fanoutFor env topic r = some f := by
  simp only [fanoutFor, h]

theorem fanoutFor_cases {f : OrdSet PeerId} (h : fanoutFor env topic r = some f) :
    r.fanout.get topic = some f ∨
      r.fanout.get topic = none ∧ f = publishPeers env topic r ∧ 0 < f.size := by
  unfold fanoutFor at h
  split at h
  · rename_i hf
    cases h
    exact .inl hf
  · rename_i hf
    split at h
    · rename_i hsize
      cases h
      exact .inr ⟨hf, rfl, hsize⟩
    · cases h

theorem fanoutFor_eq_none_iff (hnone : r.fanout.get topic = none) :
    fanoutFor env topic r = none ↔ ∀ id, RelayPeer r topic id → ¬ r.publishable env id = true := by
  have hpos : 0 < (publishPeers env topic r).size ↔ _ :=
    getRelayPeers_pos_iff (env.shuffles.perm .publish topic)
  simp only [fanoutFor, hnone]
  rw [ite_eq_right_iff, hpos]
  simp

theorem of_mem_publishPeers {id : PeerId} (h : id ∈ publishPeers env topic r) :
    RelayPeer r topic id ∧ r.publishable env id = true :=
  of_mem_getRelayPeers (env.shuffles.perm .publish topic) h

theorem size_publishPeers_le (hD : 1 ≤ r.options.D) (env : Surroundings S) (topic : Topic) :
    (publishPeers env topic r).size ≤ r.options.D := by
  have hpos : (0 : Int) < r.options.D := by omega
  have hsize := size_getRelayPeers (env.shuffles.perm .publish topic) hpos r topic
    (r.publishable env)
  have hle : ((publishPeers env topic r).size : Int) ≤ r.options.D :=
    hsize.trans_le (Int.min_le_left _ _)
  omega

theorem publishFanout_snd : (publishFanout env topic r).2 = (fanoutFor env topic r).getD .empty := by
  unfold publishFanout fanoutFor
  cases r.fanout.get topic with
  | some f => rfl
  | none =>
    change (if 0 < (publishPeers env topic r).size then _ else _ : Router S × OrdSet PeerId).2 = _
    split <;> rfl

/-- What the rounds on `topicIDs` make of the router. -/
structure Published (env : Surroundings S) (topicIDs : List Topic) (r r' : Router S) : Prop where
  rest : r' = { r with fanout := r'.fanout, lastpub := r'.lastpub }
  fanout : ∀ topic, r'.fanout.get topic =
    if Fans r topicIDs topic then fanoutFor env topic r else r.fanout.get topic
  lastpub : ∀ topic, r'.lastpub.get topic =
    if Fans r topicIDs topic then some env.now else r.lastpub.get topic

theorem Published.mesh (h : Published env topicIDs r r') : r'.mesh = r.mesh := by rw [h.rest]

theorem Published.topics (h : Published env topicIDs r r') : r'.topics = r.topics := by rw [h.rest]

theorem Published.direct (h : Published env topicIDs r r') : r'.direct = r.direct := by rw [h.rest]

theorem Published.fans_iff (h : Published env topicIDs r r') {topicIDs' : List Topic} :
    Fans r' topicIDs' topic ↔ Fans r topicIDs' topic := by
  simp only [Fans, Known, Meshless, h.mesh, h.topics]

theorem Published.publishPeers (h : Published env topicIDs r r') :
    publishPeers env topic r' = publishPeers env topic r := by
  rw [h.rest]; rfl

/-- A second round on a topic finds the set of the first or, like it, nobody to choose. -/
theorem Published.fanoutFor (h : Published env topicIDs r r') :
    fanoutFor env topic r' = fanoutFor env topic r := by
  have hfanout := h.fanout topic
  have hpeers : Relay.publishPeers env topic r' = Relay.publishPeers env topic r := h.publishPeers
  by_cases hfans : Fans r topicIDs topic
  · rw [if_pos hfans] at hfanout
    cases hf : Relay.fanoutFor env topic r with
    | some f => exact fanoutFor_of_some (hfanout.trans hf)
    | none =>
      have hnone : r.fanout.get topic = none := by
        cases hr : r.fanout.get topic with
        | none => rfl
        | some f => rw [fanoutFor_of_some hr] at hf; cases hf
      unfold Relay.fanoutFor at hf ⊢
      rw [hnone] at hf
      rw [hfanout, Relay.fanoutFor, hnone, hf, hpeers]
      exact hf
  · rw [if_neg hfans] at hfanout
    unfold Relay.fanoutFor
    rw [hfanout, hpeers]

theorem Published.targets (h : Published env topicIDs r r') :
    targets env topic r' = targets env topic r := by
  unfold Relay.targets
  rw [h.mesh, h.fanoutFor]

theorem published_nil (env : Surroundings S) (r : Router S) : Published env [] r r where
  rest := rfl
  fanout _ := (if_neg fun h => absurd h.1 List.not_mem_nil).symm
  lastpub _ := (if_neg fun h => absurd h.1 List.not_mem_nil).symm

theorem Published.append {topicIDs' : List Topic} (h : Published env topicIDs r r')
    (h' : Published env topicIDs' r' r'') : Published env (topicIDs ++ topicIDs') r r'' := by
  refine ⟨?_, ?_, ?_⟩
  · rw [h'.rest, h.rest]
  · intro topic
    rw [h'.fanout, h.fanoutFor, h.fanout, if_congr h.fans_iff rfl rfl, if_congr fans_append rfl rfl]
    by_cases hleft : Fans r topicIDs topic <;> by_cases hright : Fans r topicIDs' topic <;>
      simp [hleft, hright]
  · intro topic
    rw [h'.lastpub, h.lastpub, if_congr h.fans_iff rfl rfl, if_congr fans_append rfl rfl]
    by_cases hleft : Fans r topicIDs topic <;> by_cases hright : Fans r topicIDs' topic <;>
      simp [hleft, hright]

theorem publishFanout_of_some {f : OrdSet PeerId} (h : r.fanout.get topic = some f) :
    publishFanout env topic r = ({ r with lastpub := r.lastpub.set topic env.now }, f) := by
  simp only [publishFanout, h]

theorem publishFanout_of_none (h : r.fanout.get topic = none) :
    publishFanout env topic r =
      ({ r with
          fanout := match fanoutFor env topic r with
            | some peers => r.fanout.set topic peers
            | none => r.fanout
          lastpub := r.lastpub.set topic env.now }, (fanoutFor env topic r).getD .empty) := by
  unfold publishFanout fanoutFor
  rw [h]
  change (let run := if 0 < (publishPeers env topic r).size then
      ({ r with fanout := r.fanout.set topic (publishPeers env topic r) }, publishPeers env topic r)
      else (r, OrdSet.empty); ({ run.1 with lastpub := run.1.lastpub.set topic env.now }, run.2)) = _
  split <;> rfl

theorem published_publishFanout (hknown : Known r topic) (hmesh : Meshless r topic) :
    Published env [topic] r (publishFanout env topic r).1 := by
  have hlastpub : ∀ t, (r.lastpub.set topic env.now).get t =
      if Fans r [topic] t then some env.now else r.lastpub.get t := by
    intro t
    rw [OrdMap.get_set, if_congr (fans_singleton hknown hmesh) rfl rfl]
  cases hf : r.fanout.get topic with
  | some f =>
    rw [publishFanout_of_some hf]
    refine ⟨rfl, fun t => ?_, hlastpub⟩
    rw [if_congr (fans_singleton hknown hmesh) rfl rfl]
    split
    · rename_i h
      rw [← h, fanoutFor_of_some hf, hf]
    · rfl
  | none =>
    rw [publishFanout_of_none hf]
    refine ⟨rfl, fun t => ?_, hlastpub⟩
    rw [if_congr (fans_singleton hknown hmesh) rfl rfl]
    cases hfor : fanoutFor env topic r with
    | some peers =>
      change (r.fanout.set topic peers).get t = _
      rw [OrdMap.get_set]
      split
      · rename_i h
        rw [← h, hfor]
      · rfl
    | none =>
      change r.fanout.get t = _
      split
      · rename_i h
        rw [← h, hf, hfor]
      · rfl

theorem published_of_not_fans (h : ¬ Fans r [topic] topic) : Published env [topic] r r := by
  have hnone : ∀ t, ¬ Fans r [topic] t := by
    rintro t ⟨ht, hfans⟩
    rw [List.mem_singleton.mp ht] at hfans
    exact h ⟨List.mem_singleton_self _, hfans⟩
  exact ⟨rfl, fun t => (if_neg (hnone t)).symm, fun t => (if_neg (hnone t)).symm⟩

theorem publishTopic_unknown (h : r.topics topic = none) (s : OrdSet PeerId) :
    publishTopic env (r, s) topic = (r, s) := by
  simp only [publishTopic, h]

theorem publishTopic_meshless {p : OrdSet PeerId} (h : r.topics topic = some p)
    (hmesh : Meshless r topic) (s : OrdSet PeerId) :
    publishTopic env (r, s) topic = ((publishFanout env topic r).1,
      (publishFanout env topic r).2.toList.foldl OrdSet.add (r.direct.toList.foldl OrdSet.add s)) := by
  simp only [publishTopic, h]
  cases hM : r.mesh.get topic with
  | none => rfl
  | some M => simp only [if_pos (hmesh M hM)]

theorem publishTopic_mesh {p M : OrdSet PeerId} (h : r.topics topic = some p)
    (hM : r.mesh.get topic = some M) (hsize : M.size ≠ 0) (s : OrdSet PeerId) :
    publishTopic env (r, s) topic =
      (r, M.toList.foldl OrdSet.add (r.direct.toList.foldl OrdSet.add s)) := by
  simp only [publishTopic, h, hM, if_neg hsize]

/-- One round of the loop over the topics. -/
theorem published_publishTopic (s : OrdSet PeerId) :
    Published env [topic] r (publishTopic env (r, s) topic).1 ∧
      ∀ id, id ∈ (publishTopic env (r, s) topic).2 ↔
        id ∈ s ∨ Known r topic ∧ (id ∈ r.direct ∨ id ∈ targets env topic r) := by
  cases hknown : r.topics topic with
  | none =>
    have hout : ¬ Known r topic := fun h => h hknown
    rw [publishTopic_unknown hknown]
    exact ⟨published_of_not_fans fun h => hout h.2.1, fun id => by simp [hout]⟩
  | some p =>
    have hin : Known r topic := by rw [Known, hknown]; exact Option.some_ne_none p
    by_cases hmesh : Meshless r topic
    · rw [publishTopic_meshless hknown hmesh]
      refine ⟨published_publishFanout hin hmesh, fun id => ?_⟩
      rw [OrdSet.mem_foldl_add, OrdSet.mem_foldl_add, publishFanout_snd, targets_of_meshless hmesh,
        ← OrdSet.mem_def, ← OrdSet.mem_def]
      tauto
    · obtain ⟨M, hM, hsize⟩ := not_meshless_iff.mp hmesh
      rw [publishTopic_mesh hknown hM hsize]
      refine ⟨published_of_not_fans fun h => hmesh h.2.2, fun id => ?_⟩
      rw [OrdSet.mem_foldl_add, OrdSet.mem_foldl_add, targets_of_mesh hM hsize,
        ← OrdSet.mem_def, ← OrdSet.mem_def]
      tauto

theorem published_topics (env : Surroundings S) (r : Router S) (topicIDs : List Topic) :
    Published env topicIDs r (topicIDs.foldl (publishTopic env) (r, .empty)).1 ∧
      ∀ id, id ∈ (topicIDs.foldl (publishTopic env) (r, .empty)).2 ↔
        ∃ topic ∈ topicIDs, Known r topic ∧ (id ∈ r.direct ∨ id ∈ targets env topic r) := by
  induction topicIDs using List.reverseRecOn with
  | nil => exact ⟨published_nil env r, fun id => by simp⟩
  | append_singleton topicIDs topic ih =>
    obtain ⟨hpublished, hmem⟩ := ih
    rw [List.foldl_append, List.foldl_cons, List.foldl_nil]
    obtain ⟨hround, hround_mem⟩ := @published_publishTopic _ _ env
      (topicIDs.foldl (publishTopic env) (r, .empty)).1 topic
      (topicIDs.foldl (publishTopic env) (r, .empty)).2
    refine ⟨hpublished.append hround, fun id => ?_⟩
    rw [hround_mem, hmem, hpublished.targets, hpublished.direct, Known, hpublished.topics]
    simp only [List.mem_append, List.mem_singleton, or_and_right, exists_or, exists_eq_left]
    rfl

theorem published_publish (env : Surroundings S) (msg : InMessage) (r : Router S) :
    Published env msg.topicIDs r (publish env msg r).1 := (published_topics env r msg.topicIDs).1

theorem mem_publish {msg : InMessage} {id : PeerId} :
    id ∈ (publish env msg r).2 ↔ msg.«from» ≠ some id ∧
      ∃ topic ∈ msg.topicIDs, Known r topic ∧ (id ∈ r.direct ∨ id ∈ targets env topic r) := by
  rw [← (published_topics env r msg.topicIDs).2 id, publish, List.mem_filter, decide_eq_true_eq,
    ← OrdSet.mem_def, and_comm, ne_comm]

theorem publish_nodup (env : Surroundings S) (msg : InMessage) (r : Router S) :
    (publish env msg r).2.Nodup := (OrdSet.nodup _).filter _

/-! ## Who gets a message -/

/-- Neither the author of the message nor the peer it came from. -/
def InMessage.Other (msg : InMessage) (id : PeerId) : Prop :=
  msg.«from» ≠ some id ∧ id ≠ msg.receivedFrom

/-- The recipients a message is meant to have. -/
structure Delivers (env : Surroundings S) (msg : InMessage) (r : Router S) : Prop where
  once : (publish env msg r).2.Nodup
  author : ∀ id, msg.«from» = some id → id ∉ (publish env msg r).2
  sender : msg.receivedFrom ∉ (publish env msg r).2
  direct : ∀ topic ∈ msg.topicIDs, Known r topic → ∀ id, id ∈ r.direct → msg.Other id →
    id ∈ (publish env msg r).2
  mesh : ∀ topic ∈ msg.topicIDs, Known r topic → ∀ M, r.mesh.get topic = some M →
    ∀ id, id ∈ M → msg.Other id → id ∈ (publish env msg r).2
  fanout : ∀ topic ∈ msg.topicIDs, Known r topic → Meshless r topic →
    ∀ f, (publish env msg r).1.fanout.get topic = some f →
      ∀ id, id ∈ f → msg.Other id → id ∈ (publish env msg r).2

/-- Some shuffle makes the peer a target of the topic. -/
def MayTarget (env : Surroundings S) (topic : Topic) (r : Router S) (id : PeerId) : Prop :=
  (∃ M, r.mesh.get topic = some M ∧ id ∈ M) ∨
    Meshless r topic ∧ match r.fanout.get topic with
      | some fanoutPeers => id ∈ fanoutPeers
      | none => RelayPeer r topic id ∧ r.publishable env id = true

/-- The peer a message came from is a target of one of its topics. -/
def SenderTargeted (env : Surroundings S) (msg : InMessage) (r : Router S) : Prop :=
  ∃ topic ∈ msg.topicIDs, Known r topic ∧
    (msg.receivedFrom ∈ r.direct ∨ MayTarget env topic r msg.receivedFrom)

theorem mem_targets_of_mesh {M : OrdSet PeerId} {id : PeerId} (hM : r.mesh.get topic = some M)
    (h : id ∈ M) : id ∈ targets env topic r := by
  rw [targets_of_mesh hM (Nat.ne_of_gt (OrdSet.size_pos_of_mem h))]
  exact h

theorem fanoutFor_of_none (h : r.fanout.get topic = none) : (fanoutFor env topic r).getD .empty =
    if 0 < (publishPeers env topic r).size then publishPeers env topic r else .empty := by
  unfold fanoutFor
  rw [h]
  change (if 0 < (publishPeers env topic r).size then _ else _ : Option (OrdSet PeerId)).getD _ = _
  split <;> rfl

/-- Over all shuffles. -/
theorem mayTarget_iff {id : PeerId} :
    MayTarget env topic r id ↔ ∃ shuffles, id ∈ targets { env with shuffles := shuffles } topic r := by
  by_cases hmesh : Meshless r topic
  · have hempty : ¬ ∃ M, r.mesh.get topic = some M ∧ id ∈ M := by
      rintro ⟨M, hM, hmem⟩
      exact absurd (OrdSet.size_pos_of_mem hmem) (by rw [hmesh M hM]; exact Nat.lt_irrefl 0)
    simp only [MayTarget, hempty, hmesh, false_or, true_and, targets_of_meshless hmesh]
    cases hf : r.fanout.get topic with
    | some f =>
      simp only [fanoutFor_of_some hf, Option.getD_some]
      constructor
      · intro h
        exact ⟨.identity, h⟩
      · rintro ⟨_, h⟩
        exact h
    | none =>
      simp only [fanoutFor_of_none hf]
      constructor
      · rintro ⟨hrelay, hscore⟩
        have hmem : id ∈ publishPeers { env with shuffles := .favouring id } topic r :=
          mem_getRelayPeers_favouring _ _ hrelay hscore
        refine ⟨.favouring id, ?_⟩
        rw [if_pos (OrdSet.size_pos_of_mem hmem)]
        exact hmem
      · rintro ⟨shuffles, h⟩
        split at h
        · exact of_mem_getRelayPeers (shuffles.perm .publish topic) h
        · exact absurd h OrdSet.not_mem_empty
  · obtain ⟨M, hM, hsize⟩ := not_meshless_iff.mp hmesh
    simp only [MayTarget, hmesh, false_and, or_false, targets_of_mesh hM hsize, hM]
    constructor
    · rintro ⟨M', hM', h⟩
      cases hM'
      exact ⟨.identity, h⟩
    · rintro ⟨_, h⟩
      exact ⟨M, rfl, h⟩

theorem sender_iff {msg : InMessage} : (∀ shuffles,
    msg.receivedFrom ∉ (publish { env with shuffles := shuffles } msg r).2) ↔
      (msg.«from» = some msg.receivedFrom ∨ ¬ SenderTargeted env msg r) := by
  by_cases hfrom : msg.«from» = some msg.receivedFrom
  · simp [mem_publish, hfrom]
  · simp only [mem_publish, hfrom, ne_eq, not_false_eq_true, true_and, false_or]
    rw [← not_exists, not_iff_not, SenderTargeted]
    constructor
    · rintro ⟨shuffles, topic, htopic, hknown, h⟩
      exact ⟨topic, htopic, hknown, h.imp_right fun h => mayTarget_iff.mpr ⟨_, h⟩⟩
    · rintro ⟨topic, htopic, hknown, h⟩
      rcases h with h | h
      · exact ⟨.identity, topic, htopic, hknown, .inl h⟩
      · obtain ⟨shuffles, h⟩ := mayTarget_iff.mp h
        exact ⟨shuffles, topic, htopic, hknown, .inr h⟩

/-- All but one of the promises hold of every message. -/
theorem delivers_iff {msg : InMessage} :
    Delivers env msg r ↔ msg.receivedFrom ∉ (publish env msg r).2 := by
  constructor
  · intro h
    exact h.sender
  · intro h
    refine ⟨publish_nodup env msg r, ?_, h, ?_, ?_, ?_⟩
    · intro id hfrom hmem
      exact (mem_publish.mp hmem).1 hfrom
    · intro topic htopic hknown id hid hother
      exact mem_publish.mpr ⟨hother.1, topic, htopic, hknown, .inl hid⟩
    · intro topic htopic hknown M hM id hid hother
      exact mem_publish.mpr ⟨hother.1, topic, htopic, hknown, .inr (mem_targets_of_mesh hM hid)⟩
    · intro topic htopic hknown hmesh f hf id hid hother
      rw [(published_publish env msg r).fanout, if_pos ⟨htopic, hknown, hmesh⟩] at hf
      refine mem_publish.mpr ⟨hother.1, topic, htopic, hknown, .inr ?_⟩
      rw [targets_of_meshless hmesh, hf]
      exact hid

/-- Over all shuffles, a message is delivered as meant unless it goes back where it came from. -/
theorem publish_delivers_iff (env : Surroundings S) (msg : InMessage) (r : Router S) :
    (∀ shuffles, Delivers { env with shuffles := shuffles } msg r) ↔
      msg.«from» = some msg.receivedFrom ∨ ¬ SenderTargeted env msg r := by
  simp only [delivers_iff]
  exact sender_iff

end

namespace Echo

def members : OrdSet PeerId := .ofList ["a", "b"]

def router : Router Int where
  options := ⟨6, 4, 12, 4, 2, ⟨-50, 20⟩⟩
  peers _ := some "/vac/waku/relay/2.0.0"
  topics topic := if topic = "news" then some members else none
  direct := .empty
  outbound _ := false
  backoff _ _ := none
  mesh := OrdMap.empty.set "news" members
  fanout := .empty
  lastpub := .empty
  heartbeatTicks := 0
  started := true

def env : Surroundings Int := ⟨fun _ => 1, .identity, 0⟩

/-- As the signature policy has it, without an author. -/
def message : InMessage := ⟨none, "a", ["news"]⟩

end Echo

theorem publish_echoes : "a" ∈ (publish Echo.env Echo.message Echo.router).2 ∧
    ¬ Delivers Echo.env Echo.message Echo.router := by
  have hmem : "a" ∈ (publish Echo.env Echo.message Echo.router).2 := by decide
  exact ⟨hmem, fun h => h.sender hmem⟩

end Relay
end JsWaku
