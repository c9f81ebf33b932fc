import JsWaku.Relay.Fanout
import Mathlib.Data.List.Dedup

/-!
# JsWaku.Relay.Bounds

How many peers a topic and a message can have, over runs.

* `Bounded` — no mesh has more than `Dhi + Dout` members. A heartbeat leaves the meshes so whatever it
  found, and a join makes one of at most `D`.
* `run_mesh_bounded`    — that holds in every state of every run.
* `run_publish_bounded` — so a message goes to the direct peers and at most that many others for each
  of its topics.
-/

namespace JsWaku
namespace Relay

open Js Trace

section

variable {S : Type} [LinearOrder S] {gossipsub : Gossipsub} {env : Surroundings S} {r : Router S}
  {topic : Topic}

structure Bounded (r : Router S) : Prop where
  mesh : ∀ topic M, r.mesh.get topic = some M → M.size ≤ r.options.Dhi + r.options.Dout

theorem size_targets_le (hopts : r.options.Sane) (hD : 1 ≤ r.options.D) (hr : Bounded r)
    (htidy : Tidy r) : (targets env topic r).size ≤ r.options.Dhi + r.options.Dout := by
  have hle : r.options.D ≤ r.options.Dhi := hopts.D_le
  by_cases hmesh : Meshless r topic
  · rw [targets_of_meshless hmesh]
    cases hf : fanoutFor env topic r with
    | none => exact Nat.zero_le _
    | some f =>
      show f.size ≤ _
      rcases fanoutFor_cases hf with hf | ⟨_, rfl, _⟩
      · have hsmall : f.size ≤ r.options.D := htidy.small topic f hf
        omega
      · have hsmall := size_publishPeers_le hD env topic
        omega
  · obtain ⟨M, hM, hsize⟩ := not_meshless_iff.mp hmesh
    rw [targets_of_mesh hM hsize]
    exact hr.mesh topic M hM

/-- Whoever gets the message is direct or a target of one of the topics. -/
theorem publish_subset (env : Surroundings S) (msg : InMessage) (r : Router S) :
    (publish env msg r).2 ⊆ r.direct.toList ++
      msg.topicIDs.dedup.flatMap fun topic => (targets env topic r).toList := by
  intro id hid
  obtain ⟨_, topic, htopic, _, h⟩ := mem_publish.mp hid
  rw [List.mem_append, List.mem_flatMap]
  rcases h with h | h
  · exact .inl h
  · exact .inr ⟨topic, List.mem_dedup.mpr htopic, h⟩

theorem length_flatMap_le {α β : Type} {f : α → List β} {n : Nat} (hf : ∀ a, (f a).length ≤ n)
    (l : List α) : (l.flatMap f).length ≤ l.length * n := by
  induction l with
  | nil => simp
  | cons a l ih =>
    have ha := hf a
    rw [List.flatMap_cons, List.length_append, List.length_cons, Nat.succ_mul]
    omega

theorem size_publish_le (hopts : r.options.Sane) (hD : 1 ≤ r.options.D) (hr : Bounded r)
    (htidy : Tidy r) (env : Surroundings S) (msg : InMessage) : (publish env msg r).2.length ≤
      r.direct.size + msg.topicIDs.dedup.length * (r.options.Dhi + r.options.Dout) := by
  have hsub := (List.subperm_of_subset (publish_nodup env msg r) (publish_subset env msg r)).length_le
  have htargets := length_flatMap_le
    (fun topic => @size_targets_le S _ env r topic hopts hD hr htidy) msg.topicIDs.dedup
  rw [List.length_append] at hsub
  exact hsub.trans (Nat.add_le_add_left htargets _)

variable [Zero S]

theorem size_joinPeers_le (hD : 1 ≤ r.options.D) (htidy : Tidy r) (env : Surroundings S)
    (topic : Topic) : (joinPeers env topic r).size ≤ r.options.D := by
  have hperm := env.shuffles.perm .join topic
  unfold joinPeers
  split
  · rename_i f hf
    have hkept : (nonnegative env f).size ≤ r.options.D :=
      (List.length_filter_le _ _).trans (htidy.small topic f hf)
    simp only
    split
    · rename_i hfew
      have hneed : (0 : Int) < (r.options.D : Int) - (nonnegative env f).size := by omega
      have hadded := size_getRelayPeers hperm hneed r topic fun id =>
        !(nonnegative env f).has id && !r.direct.has id && decide (0 ≤ env.score (some id))
      have hsize := OrdSet.size_foldl_add_le (nonnegative env f)
        (getRelayPeers r (env.shuffles.run .join topic) topic
          ((r.options.D : Int) - (nonnegative env f).size) fun id =>
            !(nonnegative env f).has id && !r.direct.has id &&
              decide (0 ≤ env.score (some id))).toList
      rw [OrdSet.size] at hadded
      omega
    · exact hkept
  · have hpos : (0 : Int) < r.options.D := by omega
    have hsize := size_getRelayPeers hperm hpos r topic fun id =>
      !r.direct.has id && decide (0 ≤ env.score (some id))
    omega

theorem bounded_heartbeat (hopts : r.options.Sane) :
    Bounded (next gossipsub r (.heartbeat env)) := by
  refine ⟨fun topic M' hM' => ?_⟩
  change (heartbeat gossipsub env r).router.mesh.get topic = some M' at hM'
  change M'.size ≤ r.options.Dhi + r.options.Dout
  cases hM : r.mesh.get topic with
  | none =>
    rw [(heartbeat_other gossipsub env hM).1] at hM'
    cases hM'
  | some M =>
    obtain ⟨c, hbefore, hmesh, _⟩ := heartbeat_round gossipsub env hM
    rw [hmesh] at hM'
    cases hM'
    exact (maintained_maintainTopic (t := tickOf gossipsub env r) hopts
      (tended_start hbefore)).size_le

theorem bounded_join (hopts : r.options.Sane) (hD : 1 ≤ r.options.D) (htidy : Tidy r)
    (hr : Bounded r) : Bounded (next gossipsub r (.join env topic)) := by
  have hjoined : ∀ topic' M, (r.mesh.set topic (joinPeers env topic r)).get topic' = some M →
      M.size ≤ r.options.Dhi + r.options.Dout := by
    intro topic' M hM
    rw [OrdMap.get_set] at hM
    split at hM
    · cases hM
      have hsize := size_joinPeers_le hD htidy env topic
      have hle : r.options.D ≤ r.options.Dhi := hopts.D_le
      omega
    · exact hr.mesh topic' M hM
  rcases next_join_cases gossipsub env topic r with ⟨_, heq⟩ | ⟨_, _, heq⟩ | ⟨_, _, heq⟩
  · rwa [heq]
  · rw [heq]
    exact ⟨hjoined⟩
  · rw [heq]
    exact ⟨hjoined⟩

theorem bounded_next {e : Event S} (hopts : r.options.Sane) (hD : 1 ≤ r.options.D) (htidy : Tidy r)
    (hr : Bounded r) : Bounded (next gossipsub r e) := by
  cases e with
  | heartbeat env => exact bounded_heartbeat hopts
  | join env topic => exact bounded_join hopts hD htidy hr
  | publish env msg =>
    refine ⟨fun topic M hM => ?_⟩
    have hrest := published_publish env msg r
    change (publish env msg r).1.mesh.get topic = some M at hM
    change M.size ≤ (publish env msg r).1.options.Dhi + (publish env msg r).1.options.Dout
    rw [hrest.mesh] at hM
    rw [hrest.rest]
    exact hr.mesh topic M hM
  | change peers topics outbound =>
    refine ⟨fun topic M hM => ?_⟩
    obtain ⟨M', hM', rfl⟩ := change_mesh hM
    exact (OrdSet.size_filter_le _ _).trans (hr.mesh topic M' hM')

theorem next_direct (gossipsub : Gossipsub) (r : Router S) (e : Event S) :
    (next gossipsub r e).direct = r.direct := by
  cases e with
  | heartbeat env => rfl
  | join env topic =>
    rcases next_join_cases gossipsub env topic r with ⟨_, h⟩ | ⟨_, _, h⟩ | ⟨_, _, h⟩ <;> rw [h]
  | publish env msg => exact (published_publish env msg r).direct
  | change peers topics outbound => rfl

/-! ## Runs -/

/-- What every state of a run has in common with the first, and the bounds. -/
structure Settled (r r' : Router S) : Prop where
  options : r'.options = r.options
  direct : r'.direct = r.direct
  tidy : Tidy r'
  bounded : Bounded r'

theorem settled_next {r' : Router S} (gossipsub : Gossipsub) (hopts : r.options.Sane)
    (hD : 1 ≤ r.options.D) (h : Settled r r') (e : Event S) : Settled r (next gossipsub r' e) := by
  have hopts' : r'.options.Sane := h.options ▸ hopts
  have hD' : 1 ≤ r'.options.D := h.options ▸ hD
  exact ⟨(next_options gossipsub r' e).trans h.options, (next_direct gossipsub r' e).trans h.direct,
    tidy_next hD' h.tidy, bounded_next hopts' hD' h.tidy h.bounded⟩

theorem settled_run (gossipsub : Gossipsub) (hopts : r.options.Sane) (hD : 1 ≤ r.options.D)
    (hr : r.Fresh) (events : List (Event S)) : Settled r (run gossipsub r events).1 := by
  have hfresh : Bounded r := ⟨fun topic M hM => by rw [hr.mesh] at hM; cases hM⟩
  rw [run_fst]
  exact after_invariant (I := fun _ r' => Settled r r') ⟨rfl, rfl, hr.tidy, hfresh⟩
    (fun _ _ e h => settled_next gossipsub hopts hD h e) events

theorem run_mesh_bounded (gossipsub : Gossipsub) (hopts : r.options.Sane) (hD : 1 ≤ r.options.D)
    (hr : r.Fresh) (events : List (Event S)) (topic : Topic) (M : OrdSet PeerId)
    (hM : (run gossipsub r events).1.mesh.get topic = some M) :
    M.size ≤ r.options.Dhi + r.options.Dout := by
  have h := settled_run gossipsub hopts hD hr events
  rw [← h.options]
  exact h.bounded.mesh topic M hM

theorem run_publish_bounded (gossipsub : Gossipsub) (hopts : r.options.Sane) (hD : 1 ≤ r.options.D)
    (hr : r.Fresh) (events : List (Event S)) (env : Surroundings S) (msg : InMessage) :
    (publish env msg (run gossipsub r events).1).2.length ≤
      r.direct.size + msg.topicIDs.dedup.length * (r.options.Dhi + r.options.Dout) := by
  have h := settled_run gossipsub hopts hD hr events
  rw [← h.options, ← h.direct]
  exact size_publish_le (h.options ▸ hopts) (h.options ▸ hD) h.bounded h.tidy env msg

end

theorem rejoin_sane : Rejoin.router.options.Sane := ⟨by decide, by decide, by decide, by decide⟩

theorem run_mesh_bounded_calm : ∃ M,
    (run .standard Rejoin.router Rejoin.calm).1.mesh.get "news" = some M ∧ M.size ≤ 14 :=
  ⟨_, rfl, run_mesh_bounded .standard rejoin_sane (by decide) ⟨rfl, rfl, rfl⟩ Rejoin.calm "news" _ rfl⟩

theorem run_publish_bounded_calm : (publish (Rejoin.clock 3000 1) ⟨none, "b", ["news", "news"]⟩
    (run .standard Rejoin.router Rejoin.calm).1).2.length ≤ 14 :=
  run_publish_bounded .standard rejoin_sane (by decide) ⟨rfl, rfl, rfl⟩ Rejoin.calm
    (Rejoin.clock 3000 1) ⟨none, "b", ["news", "news"]⟩

end Relay
end JsWaku
