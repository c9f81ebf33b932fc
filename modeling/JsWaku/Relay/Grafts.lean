import JsWaku.Relay.MeshChange

/-!
# JsWaku.Relay.Grafts

The GRAFTs of a heartbeat and the backoff table, when a GRAFT is decided on and when it is sent.

* `Honest` — the log lists what the GRAFT lists do, and no entry was there when it was decided on.
* `CutsNewcomer` — the cut prunes a peer that the fill-up has just grafted.
* `sent_clear_iff` — no entry is there when the GRAFTs are sent, exactly if no topic does that.
-/

namespace JsWaku
namespace Relay

open Js

structure Honest (c : Control) : Prop where
  listed : ∀ p topic, topic ∈ c.toGraft p ↔ ∃ g ∈ c.grafts, g.id = p ∧ g.topic = topic
  entry : ∀ g ∈ c.grafts, g.entry = none

section

variable {S : Type} {t : Tick S} {topic : Topic} {run : MeshRun} {xs : List PeerId} {p : PeerId}

theorem honest_graftPeer {id : PeerId} (h : Honest run.control) (hfit : Fit t topic run id) :
    Honest (graftPeer topic run id).control := by
  constructor
  · intro p topic'
    simp only [graftPeer, push, List.mem_append, List.mem_singleton, or_and_right, exists_or,
      exists_eq_left]
    rw [← h.listed p topic']
    by_cases hp : p = id
    · simp [hp, eq_comm]
    · simp [hp, Ne.symm hp]
  · intro g hg
    rcases List.mem_append.mp hg with hg | hg
    · exact h.entry g hg
    · rw [List.mem_singleton.mp hg]
      exact hfit.entry

theorem honest_kept (t : Tick S) (topic : Topic) : Kept t topic fun run => Honest run.control where
  prune _ _ h := ⟨h.listed, h.entry⟩
  graft _ _ hfit h := honest_graftPeer h hfit
  noPX _ _ h := ⟨h.listed, h.entry⟩

theorem honest_start (t : Tick S) : Honest t.start where
  listed p topic := by simp [Tick.start]
  entry g hg := by simp [Tick.start] at hg

theorem honest_heartbeat [LinearOrder S] [Zero S] (gossipsub : Gossipsub) (env : Surroundings S)
    (r : Router S) : Honest (heartbeat gossipsub env r).control := by
  refine OrdMap.mapAccum_invariant ?_ r.mesh (honest_start (tickOf gossipsub env r))
  intro topic peers c h
  have hrun : Honest (MeshRun.mk peers c).control := h
  exact (honest_kept (tickOf gossipsub env r) topic).maintainTopic hrun

/-- No peer in the GRAFT list has an entry. -/
def Clear (topic : Topic) (run : MeshRun) : Prop :=
  ∀ p, topic ∈ run.control.toGraft p → run.control.backoff topic p = none

theorem mem_toGraft_grafts : topic ∈ (xs.foldl (graftPeer topic) run).control.toGraft p ↔
    p ∈ xs ∨ topic ∈ run.control.toGraft p := by
  induction xs generalizing run with
  | nil => simp
  | cons x xs ih =>
    rw [List.foldl_cons, ih, List.mem_cons]
    exact (or_congr_right mem_push).trans (by tauto)

theorem clear_grafts_iff (hfit : ∀ x ∈ xs, Fit t topic run x) :
    Clear topic (xs.foldl (graftPeer topic) run) ↔ Clear topic run := by
  unfold Clear
  simp only [mem_toGraft_grafts, backoff_grafts]
  constructor
  · intro h p hp
    exact h p (.inr hp)
  · rintro h p (hp | hp)
    · exact (hfit p hp).entry
    · exact h p hp

theorem backoff_prunes_of_not_mem (h : p ∉ xs) :
    (xs.foldl (prunePeer t topic) run).control.backoff topic p = run.control.backoff topic p := by
  induction xs generalizing run with
  | nil => rfl
  | cons x xs ih =>
    obtain ⟨hne, hnot⟩ := not_or.mp (mt List.mem_cons.mpr h)
    rw [List.foldl_cons, ih hnot, backoff_prunePeer_other (.inr hne)]

theorem backoff_prunes_of_mem (h : p ∈ xs) :
    (xs.foldl (prunePeer t topic) run).control.backoff topic p ≠ none := by
  induction xs generalizing run with
  | nil => cases h
  | cons x xs ih =>
    rw [List.foldl_cons]
    by_cases hp : p ∈ xs
    · exact ih hp
    · obtain rfl : p = x := (List.mem_cons.mp h).resolve_right hp
      rw [backoff_prunes_of_not_mem hp]
      exact backoff_prunePeer_self

variable [LinearOrder S]

theorem clear_cutDown_iff (h : Clear topic run) :
    Clear topic (cutDown t topic run) ↔ ¬ (t.opts.Dhi < run.peers.size ∧
      ∃ x ∈ excess t topic run.peers, topic ∈ run.control.toGraft x) := by
  rcases cutDown_cases t topic run with ⟨heq, hle⟩ | ⟨hlt, heq⟩
  · rw [heq]
    exact iff_of_true h fun hcut => by omega
  · rw [heq]
    unfold Clear
    rw [toGraft_prunes]
    constructor
    · rintro hclear ⟨_, x, hx, hgraft⟩
      exact backoff_prunes_of_mem hx (hclear x hgraft)
    · intro hno p hp
      rw [backoff_prunes_of_not_mem fun hx => hno ⟨hlt, p, hx, hp⟩]
      exact h p hp

theorem clear_opportunisticGraft_iff :
    Clear topic (opportunisticGraft t topic run) ↔ Clear topic run := by
  rcases opportunisticGraft_cases t topic run with ⟨heq, _⟩ | ⟨_, xs, _, hxs, heq⟩
  · rw [heq]
  · rw [heq]
    exact clear_grafts_iff fun x hx => (hxs x hx).2

variable [Zero S]

/-- The cut prunes a peer that was not there when the fill-up began. -/
def CutsNewcomer (t : Tick S) (topic : Topic) (run : MeshRun) : Prop :=
  let kept := dropNegative t topic run
  let filled := fillUp t topic kept
  t.opts.Dhi < filled.peers.size ∧ ∃ x ∈ excess t topic filled.peers, ¬ x ∈ kept.peers

theorem mem_toGraft_fillUp (hnone : ∀ p, topic ∉ run.control.toGraft p) :
    topic ∈ (fillUp t topic run).control.toGraft p ↔
      p ∈ (fillUp t topic run).peers ∧ ¬ p ∈ run.peers := by
  rcases fillUp_cases t topic run with ⟨heq, _⟩ | ⟨_, heq⟩
  · rw [heq]
    exact iff_of_false (hnone p) fun h => h.2 h.1
  · rw [heq, mem_toGraft_grafts, mem_grafts]
    constructor
    · intro h
      have hin := h.resolve_right (hnone p)
      exact ⟨.inl hin, (fit_of_mem_relayPeers hin).2.1⟩
    · rintro ⟨hin, hnot⟩
      exact .inl (hin.resolve_right hnot)

theorem toGraft_dropNegative :
    (dropNegative t topic run).control.toGraft = run.control.toGraft := by
  obtain ⟨noPX, heq⟩ := dropNegative_eq t topic run
  rw [heq]
  exact toGraft_prunes

theorem clear_refilled_iff {run' : MeshRun} (hr : Refilled t topic run run') :
    Clear topic run' ↔ Clear topic run := by
  cases hr with
  | same => exact Iff.rfl
  | grafts draw count => exact clear_grafts_iff fun x hx => (fit_of_mem_relayPeers hx).1

theorem clear_maintainTopic_iff (hnone : ∀ p, topic ∉ run.control.toGraft p) :
    Clear topic (maintainTopic t topic run) ↔ ¬ CutsNewcomer t topic run := by
  have hdropped : ∀ p, topic ∉ (dropNegative t topic run).control.toGraft p := fun p => by
    rw [toGraft_dropNegative]
    exact hnone p
  have hfilled : Clear topic (fillUp t topic (dropNegative t topic run)) :=
    (clear_refilled_iff (refilled_fillUp t topic _)).mpr fun p hp => absurd hp (hdropped p)
  rw [maintainTopic, clear_opportunisticGraft_iff, maintainDegree,
    clear_refilled_iff (refilled_topUpOutbound t topic _), clear_cutDown_iff hfilled, CutsNewcomer]
  refine not_congr (and_congr_right fun _ => exists_congr fun x => and_congr_right fun hx => ?_)
  rw [mem_toGraft_fillUp hdropped]
  exact ⟨fun h => h.2, fun h => ⟨mem_of_mem_excess hx, h⟩⟩

/-- A fill-up to `D` members is never cut. -/
theorem not_cutsNewcomer (hlo : t.opts.Dlo ≤ t.opts.D) (hhi : t.opts.D ≤ t.opts.Dhi) (topic : Topic)
    (run : MeshRun) : ¬ CutsNewcomer t topic run := by
  rintro ⟨hlt, x, hx, hnot⟩
  rcases fillUp_cases t topic (dropNegative t topic run) with ⟨heq, _⟩ | ⟨hfew, _⟩
  · rw [heq] at hx
    exact hnot (mem_of_mem_excess hx)
  · have hsize := fillUp_size_le topic hlo hfew
    omega

theorem Alike.cutsNewcomer {run' : MeshRun} (h : Alike topic run run') :
    CutsNewcomer t topic run ↔ CutsNewcomer t topic run' := by
  unfold CutsNewcomer
  simp only [h.dropNegative.peers, h.dropNegative.fillUp.peers]

end

section

variable {S : Type} [LinearOrder S] [Zero S] {gossipsub : Gossipsub} {env : Surroundings S}
  {r : Router S} {topic : Topic} {M : OrdSet PeerId}

theorem clear_round_iff (hM : r.mesh.get topic = some M) :
    (∀ p, topic ∈ (heartbeat gossipsub env r).toGraft p →
      (heartbeat gossipsub env r).router.backoff topic p = none) ↔
    ¬ CutsNewcomer (tickOf gossipsub env r) topic ⟨M, (tickOf gossipsub env r).start⟩ := by
  obtain ⟨c, hbefore, _, hafter⟩ := heartbeat_round gossipsub env hM
  have hnone : ∀ p, topic ∉ (MeshRun.mk M c).control.toGraft p := fun p =>
    List.count_eq_zero.mp (hbefore.grafted p)
  rw [← (hbefore.alike M).cutsNewcomer, ← clear_maintainTopic_iff hnone]
  refine forall_congr' fun p => ?_
  have hlisted : topic ∈ (heartbeat gossipsub env r).toGraft p ↔
      topic ∈ (maintainTopic (tickOf gossipsub env r) topic ⟨M, c⟩).control.toGraft p := by
    rw [← List.count_pos_iff, ← List.count_pos_iff]
    exact (hafter.grafted p).symm ▸ Iff.rfl
  rw [hlisted]
  exact (hafter.backoff p).symm ▸ Iff.rfl

theorem sent_clear_iff :
    (∀ g ∈ (heartbeat gossipsub env r).grafts,
      (heartbeat gossipsub env r).router.backoff g.topic g.id = none) ↔
    ∀ topic M, r.mesh.get topic = some M →
      ¬ CutsNewcomer (tickOf gossipsub env r) topic ⟨M, (tickOf gossipsub env r).start⟩ := by
  have hlisted := (honest_heartbeat gossipsub env r).listed
  constructor
  · intro h topic M hM
    refine (clear_round_iff hM).mp fun p hp => ?_
    obtain ⟨g, hg, rfl, rfl⟩ := (hlisted p topic).mp hp
    exact h g hg
  · intro h g hg
    have hin : g.topic ∈ (heartbeat gossipsub env r).toGraft g.id :=
      (hlisted g.id g.topic).mpr ⟨g, hg, rfl, rfl⟩
    cases hM : r.mesh.get g.topic with
    | none =>
      have hquiet := (heartbeat_other gossipsub env hM).2.grafted g.id
      exact absurd hin (List.count_eq_zero.mp hquiet)
    | some M => exact (clear_round_iff hM).mpr (h g.topic M hM) g.id hin

end

end Relay
end JsWaku
