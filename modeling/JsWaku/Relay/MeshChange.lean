import JsWaku.Relay.Mesh

/-!
# JsWaku.Relay.MeshChange

A whole heartbeat, over all topics.

* `Undisturbed` — the rounds on other topics leave alone what belongs to this one.
* `mirroring_iff` — the GRAFT and PRUNE lists account for the change of every mesh exactly when no
  topic is regrafted.
* `heartbeat_healthy` — what holds of every mesh afterwards.
-/

namespace JsWaku
namespace Relay

open Js Ledger

/-- Nothing of `topic` differs between the two. -/
structure Undisturbed (topic : Topic) (c c' : Control) : Prop where
  backoff : ∀ p, c'.backoff topic p = c.backoff topic p
  grafted : ∀ p, (c'.toGraft p).count topic = (c.toGraft p).count topic
  pruned : ∀ p, (c'.toPrune p).count topic = (c.toPrune p).count topic

theorem Undisturbed.refl (topic : Topic) (c : Control) : Undisturbed topic c c :=
  ⟨fun _ => rfl, fun _ => rfl, fun _ => rfl⟩

theorem Undisturbed.trans {topic : Topic} {c c' c'' : Control} (h : Undisturbed topic c c')
    (h' : Undisturbed topic c' c'') : Undisturbed topic c c'' where
  backoff p := (h'.backoff p).trans (h.backoff p)
  grafted p := (h'.grafted p).trans (h.grafted p)
  pruned p := (h'.pruned p).trans (h.pruned p)

theorem Undisturbed.mem_toGraft {topic : Topic} {c c' : Control} (h : Undisturbed topic c c')
    {p : PeerId} : topic ∈ c'.toGraft p ↔ topic ∈ c.toGraft p := by
  rw [← List.count_pos_iff, h.grafted, List.count_pos_iff]

theorem Undisturbed.mem_toPrune {topic : Topic} {c c' : Control} (h : Undisturbed topic c c')
    {p : PeerId} : topic ∈ c'.toPrune p ↔ topic ∈ c.toPrune p := by
  rw [← List.count_pos_iff, h.pruned, List.count_pos_iff]

section

variable {S : Type} {t : Tick S} {topic topic' : Topic}

theorem undisturbed_kept (h : topic' ≠ topic) (c : Control) :
    Kept t topic' fun run => Undisturbed topic c run.control where
  prune _ _ hr := hr.trans
    ⟨fun _ => backoff_prunePeer_other (.inl (Ne.symm h)), fun _ => rfl, fun p => count_push_other h _ p⟩
  graft _ _ _ hr := hr.trans ⟨fun _ => rfl, fun p => count_push_other h _ p, fun _ => rfl⟩
  noPX _ _ hr := ⟨hr.backoff, hr.grafted, hr.pruned⟩

variable [LinearOrder S] [Zero S]

theorem undisturbed_meshRound (h : topic' ≠ topic) (peers : OrdSet PeerId) (c : Control) :
    Undisturbed topic c (meshRound t topic' peers c).2 := by
  have hrun : Undisturbed topic c (MeshRun.mk peers c).control := .refl topic c
  exact (undisturbed_kept h c).maintainTopic hrun

end

/-- The stages ask only who is in the mesh and who has an entry. -/
structure Alike (topic : Topic) (run run' : MeshRun) : Prop where
  peers : run.peers = run'.peers
  entry : ∀ p, run.control.backoff topic p = none ↔ run'.control.backoff topic p = none

theorem Undisturbed.alike {topic : Topic} {c c' : Control} (h : Undisturbed topic c c')
    (peers : OrdSet PeerId) : Alike topic ⟨peers, c'⟩ ⟨peers, c⟩ :=
  ⟨rfl, fun p => by rw [h.backoff p]⟩

section

variable {S : Type} {t : Tick S} {topic : Topic} {run run' : MeshRun} {xs : List PeerId}

theorem Alike.prunePeer (h : Alike topic run run') (id : PeerId) :
    Alike topic (prunePeer t topic run id) (prunePeer t topic run' id) := by
  refine ⟨congrArg (·.delete id) h.peers, fun p => ?_⟩
  by_cases hp : p = id
  · subst hp
    exact iff_of_false backoff_prunePeer_self backoff_prunePeer_self
  · rw [backoff_prunePeer_other (.inr hp), backoff_prunePeer_other (.inr hp)]
    exact h.entry p

theorem Alike.prunes (h : Alike topic run run') :
    Alike topic (xs.foldl (Relay.prunePeer t topic) run) (xs.foldl (Relay.prunePeer t topic) run') := by
  induction xs generalizing run run' with
  | nil => exact h
  | cons x xs ih => exact ih (h.prunePeer x)

theorem Alike.grafts (h : Alike topic run run') :
    Alike topic (xs.foldl (graftPeer topic) run) (xs.foldl (graftPeer topic) run') := by
  induction xs generalizing run run' with
  | nil => exact h
  | cons x xs ih => exact ih ⟨congrArg (·.add x) h.peers, h.entry⟩

theorem Alike.fit (h : Alike topic run run') {id : PeerId} :
    Fit t topic run id ↔ Fit t topic run' id :=
  ⟨fun hf => ⟨hf.relay, hf.indirect, (h.entry id).mp hf.entry⟩,
    fun hf => ⟨hf.relay, hf.indirect, (h.entry id).mpr hf.entry⟩⟩

variable [LinearOrder S]

theorem Alike.cutDown (h : Alike topic run run') :
    Alike topic (cutDown t topic run) (cutDown t topic run') := by
  unfold Relay.cutDown
  rw [h.peers]
  split
  · exact h.prunes
  · exact h

theorem Alike.regrafts (h : Alike topic run run') :
    Regrafts t topic run ↔ Regrafts t topic run' := by
  constructor
  · intro hr
    obtain ⟨id, hmem, hfit, hscore⟩ := hr.member
    exact ⟨hr.tick, h.peers ▸ hr.size, h.peers ▸ hr.median,
      id, h.peers ▸ hmem, h.fit.mp hfit, h.peers ▸ hscore⟩
  · intro hr
    obtain ⟨id, hmem, hfit, hscore⟩ := hr.member
    exact ⟨hr.tick, h.peers ▸ hr.size, h.peers ▸ hr.median,
      id, h.peers ▸ hmem, h.fit.mpr hfit, h.peers ▸ hscore⟩

variable [Zero S]

theorem Alike.graftable (h : Alike topic run run') : graftable t topic run = graftable t topic run' := by
  funext id
  unfold Relay.graftable
  rw [h.peers]
  congr 2
  rw [Bool.eq_iff_iff, Option.isNone_iff_eq_none, Option.isNone_iff_eq_none]
  exact h.entry id

theorem Alike.dropNegative (h : Alike topic run run') :
    Alike topic (dropNegative t topic run) (dropNegative t topic run') := by
  obtain ⟨noPX, heq⟩ := dropNegative_eq t topic run
  obtain ⟨noPX', heq'⟩ := dropNegative_eq t topic run'
  have hprunes : Alike topic ((negatives t run'.peers).foldl (Relay.prunePeer t topic) run)
      ((negatives t run'.peers).foldl (Relay.prunePeer t topic) run') := h.prunes
  rw [heq, heq', h.peers]
  exact ⟨hprunes.peers, hprunes.entry⟩

theorem Alike.fillUp (h : Alike topic run run') :
    Alike topic (fillUp t topic run) (fillUp t topic run') := by
  unfold Relay.fillUp
  rw [h.peers, h.graftable]
  split
  · exact h.grafts
  · exact h

theorem Alike.topUpOutbound (h : Alike topic run run') :
    Alike topic (topUpOutbound t topic run) (topUpOutbound t topic run') := by
  unfold Relay.topUpOutbound
  rw [h.peers, h.graftable]
  split
  · simp only
    split
    · exact h.grafts
    · exact h
  · exact h

theorem Alike.maintainDegree (h : Alike topic run run') :
    Alike topic (maintainDegree t topic run) (maintainDegree t topic run') :=
  h.dropNegative.fillUp.cutDown.topUpOutbound

end

def Beat.control {S : Type} (beat : Beat S) : Control :=
  ⟨beat.router.backoff, beat.toGraft, beat.toPrune, beat.noPX, beat.grafts⟩

section

variable {S : Type} {t : Tick S} {topic : Topic} {M : OrdSet PeerId} {c : Control}

theorem ledger_start (h : Undisturbed topic t.start c) :
    ledger topic ⟨M, c⟩ = fresh {p | p ∈ M} := by
  simp only [ledger, fresh, Ledger.mk.injEq, true_and]
  exact ⟨funext h.grafted, funext h.pruned⟩

theorem tended_start (h : Undisturbed topic t.start c) : Tended t topic M ⟨M, c⟩ := by
  constructor
  · intro p hp hM
    exact absurd hp hM
  · intro p hp
    have hcount := h.pruned p
    have hpos := List.count_pos_iff.mpr hp
    rw [Tick.start, List.count_nil] at hcount
    exact absurd hcount (Nat.ne_of_gt hpos)

/-- The lists of a heartbeat turn `M` into `M'`. -/
structure Accounted (beat : Beat S) (topic : Topic) (M M' : OrdSet PeerId) : Prop where
  mesh : ∀ p, p ∈ M' ↔ (p ∈ M ∧ topic ∉ beat.toPrune p) ∨ topic ∈ beat.toGraft p
  pruned_mem : ∀ p, topic ∈ beat.toPrune p → p ∈ M
  grafted_new : ∀ p, topic ∈ beat.toGraft p → ¬ p ∈ M
  disjoint : ∀ p, topic ∈ beat.toGraft p → topic ∉ beat.toPrune p
  pruned_once : ∀ p, (beat.toPrune p).count topic ≤ 1
  grafted_once : ∀ p, (beat.toGraft p).count topic ≤ 1

/-- They do so for every topic, and list no topic without a mesh. -/
structure Mirroring (r : Router S) (beat : Beat S) : Prop where
  joined : ∀ topic M, r.mesh.get topic = some M →
    ∃ M', beat.router.mesh.get topic = some M' ∧ Accounted beat topic M M'
  others : ∀ topic, r.mesh.get topic = none → beat.router.mesh.get topic = none ∧
    ∀ p, topic ∉ beat.toGraft p ∧ topic ∉ beat.toPrune p

theorem accounted_iff {beat : Beat S} {run : MeshRun}
    (h : Undisturbed topic run.control beat.control) :
    Accounted beat topic M run.peers ↔ Mirrors {p | p ∈ M} (ledger topic run) := by
  have hkept : ∀ p, (ledger topic run).removed p = 0 ↔ topic ∉ beat.toPrune p := by
    intro p
    rw [← List.count_eq_zero]
    exact (h.pruned p).symm ▸ Iff.rfl
  have hremoved : ∀ p, (ledger topic run).removed p ≠ 0 ↔ topic ∈ beat.toPrune p := by
    intro p
    rw [ne_eq, hkept, not_not]
  have hadded : ∀ p, (ledger topic run).added p ≠ 0 ↔ topic ∈ beat.toGraft p := by
    intro p
    rw [← not_iff_not, not_not, ← List.count_eq_zero]
    exact (h.grafted p).symm ▸ Iff.rfl
  constructor
  · intro ha
    constructor
    · intro p
      rw [hkept, hadded]
      exact ha.mesh p
    · intro p hp
      exact ha.pruned_mem p ((hremoved p).mp hp)
    · intro p hp
      exact ha.grafted_new p ((hadded p).mp hp)
    · intro p
      exact (h.pruned p).symm.trans_le (ha.pruned_once p)
    · intro p
      exact (h.grafted p).symm.trans_le (ha.grafted_once p)
  · intro hm
    constructor
    · intro p
      rw [← hkept, ← hadded]
      exact hm.members p
    · intro p hp
      exact hm.removed_mem p ((hremoved p).mpr hp)
    · intro p hp
      exact hm.added_new p ((hadded p).mpr hp)
    · intro p hg hp
      exact hm.added_new p ((hadded p).mpr hg) (hm.removed_mem p ((hremoved p).mpr hp))
    · intro p
      exact (h.pruned p).trans_le (hm.removed_once p)
    · intro p
      exact (h.grafted p).trans_le (hm.added_once p)

end

section

variable {S : Type} [LinearOrder S] [Zero S] {gossipsub : Gossipsub} {env : Surroundings S}
  {r : Router S} {topic : Topic} {M : OrdSet PeerId}

theorem heartbeat_round (gossipsub : Gossipsub) (env : Surroundings S)
    (hM : r.mesh.get topic = some M) :
    ∃ c, Undisturbed topic (tickOf gossipsub env r).start c ∧
      (heartbeat gossipsub env r).router.mesh.get topic =
        some (maintainTopic (tickOf gossipsub env r) topic ⟨M, c⟩).peers ∧
      Undisturbed topic (maintainTopic (tickOf gossipsub env r) topic ⟨M, c⟩).control
        (heartbeat gossipsub env r).control :=
  ⟨_, OrdMap.mapAccum_get (.refl topic) .trans (fun _ peers c h => undisturbed_meshRound h peers c)
    hM _⟩

theorem heartbeat_other (gossipsub : Gossipsub) (env : Surroundings S)
    (hM : r.mesh.get topic = none) :
    (heartbeat gossipsub env r).router.mesh.get topic = none ∧
      Undisturbed topic (tickOf gossipsub env r).start (heartbeat gossipsub env r).control :=
  OrdMap.mapAccum_get_none (.refl topic) .trans (fun _ peers c h => undisturbed_meshRound h peers c)
    hM _

theorem accounted_round_iff (hopts : r.options.Sane) (hM : r.mesh.get topic = some M) :
    (∃ M', (heartbeat gossipsub env r).router.mesh.get topic = some M' ∧
      Accounted (heartbeat gossipsub env r) topic M M') ↔
    ¬ Regrafts (tickOf gossipsub env r) topic
      (maintainDegree (tickOf gossipsub env r) topic ⟨M, (tickOf gossipsub env r).start⟩) := by
  obtain ⟨c, hbefore, hmesh, hafter⟩ := heartbeat_round gossipsub env hM
  have hstart : ledger topic ⟨M, c⟩ = fresh {p | p ∈ M} := ledger_start hbefore
  have hmirrors : Mirrors {p | p ∈ M} (ledger topic ⟨M, c⟩) := hstart ▸ mirrors_fresh _
  have hnew : ∀ p, (ledger topic ⟨M, c⟩).added p = 0 := fun p => by rw [hstart]; rfl
  have hiff := mirrors_maintainTopic_iff (t := tickOf gossipsub env r) hopts hmirrors
    (tended_start hbefore) hnew
  rw [(hbefore.alike M).maintainDegree.regrafts] at hiff
  rw [← hiff, ← accounted_iff hafter]
  constructor
  · rintro ⟨M', hM', ha⟩
    rw [hmesh] at hM'
    cases hM'
    exact ha
  · intro ha
    exact ⟨_, hmesh, ha⟩

theorem mirroring_iff (hopts : r.options.Sane) :
    Mirroring r (heartbeat gossipsub env r) ↔
      ∀ topic M, r.mesh.get topic = some M → ¬ Regrafts (tickOf gossipsub env r) topic
        (maintainDegree (tickOf gossipsub env r) topic ⟨M, (tickOf gossipsub env r).start⟩) := by
  constructor
  · intro h topic M hM
    exact (accounted_round_iff hopts hM).mp (h.joined topic M hM)
  · intro h
    constructor
    · intro topic M hM
      exact (accounted_round_iff hopts hM).mpr (h topic M hM)
    · intro topic hM
      obtain ⟨hnone, hquiet⟩ := heartbeat_other gossipsub env hM
      refine ⟨hnone, ?_⟩
      intro p
      exact ⟨List.count_eq_zero.mp (hquiet.grafted p), List.count_eq_zero.mp (hquiet.pruned p)⟩

end

namespace SixtiethTick

def members : OrdSet PeerId := .ofList ["a", "b", "c", "d"]

/-- One topic with a mesh of four, none of them in backoff. -/
def router : Router Int where
  options := ⟨6, 4, 12, 4, 2, ⟨-50, 20⟩⟩
  peers id := if members.has id then some "/vac/waku/relay/2.0.0" else none
  topics topic := if topic = "news" then some members else none
  direct := .empty
  outbound _ := false
  backoff _ _ := none
  mesh := ⟨[("news", members)], by decide⟩
  fanout := .empty
  lastpub := .empty
  heartbeatTicks := 59
  started := true

/-- The median score is 0, and one member is above it. -/
def env : Surroundings Int where
  score id := if id = some "d" then 1 else 0
  shuffles := .identity
  now := 0

theorem sane : router.options.Sane := ⟨by decide, by decide, by decide, by decide⟩

/-- Before its first tick. -/
def fresh : Router Int := { router with heartbeatTicks := 0 }

end SixtiethTick

section

open SixtiethTick

/-- On the first tick the last stage does not run. -/
theorem mirroring_iff_sixty :
    (Mirroring router (heartbeat .standard env router) ↔
      ∀ topic M, router.mesh.get topic = some M → ¬ Regrafts (tickOf .standard env router) topic
        (maintainDegree (tickOf .standard env router) topic
          ⟨M, (tickOf .standard env router).start⟩)) ∧
      Mirroring fresh (heartbeat .standard env fresh) := by
  refine ⟨mirroring_iff sane, (mirroring_iff (r := fresh) sane).mpr fun topic M _ h => ?_⟩
  exact absurd h.tick (by decide)

/-- A member is sent a GRAFT. -/
theorem sixtieth_tick_regrafts : router.options.Sane ∧
    (heartbeat .standard env router).toGraft "d" = ["news"] ∧
      ¬ Mirroring router (heartbeat .standard env router) := by
  have hgraft : (heartbeat .standard env router).toGraft "d" = ["news"] := by decide
  refine ⟨sane, hgraft, fun h => ?_⟩
  obtain ⟨M', _, ha⟩ := h.joined "news" members rfl
  exact ha.grafted_new "d" (by rw [hgraft]; decide) (by decide)

end

/-! ## Every mesh afterwards -/

section

variable {S : Type} [LinearOrder S] [Zero S] {gossipsub : Gossipsub} {env : Surroundings S}
  {r : Router S} {topic : Topic} {M : OrdSet PeerId}

/-- `M` is the mesh before the heartbeat, `M'` the one after it. -/
structure Healthy (env : Surroundings S) (r : Router S) (beat : Beat S) (topic : Topic)
    (M M' : OrdSet PeerId) : Prop where
  nonneg : ∀ p, p ∈ M' → 0 ≤ env.score (some p)
  newcomer : ∀ p, p ∈ M' → ¬ p ∈ M → RelayPeer r topic p ∧ ¬ p ∈ r.direct ∧
    beat.router.backoff topic p = none
  pruned : ∀ p, topic ∈ beat.toPrune p → ¬ p ∈ M' ∧ beat.router.backoff topic p ≠ none
  size_le : M'.size ≤ r.options.Dhi + r.options.Dout + relayOpportunisticGraftPeers
  complete : M'.size < r.options.Dlo → ∀ p, RelayPeer r topic p → ¬ p ∈ r.direct →
    beat.router.backoff topic p = none → 0 ≤ env.score (some p) → p ∈ M'

theorem healthy_of_maintained {run : MeshRun}
    (h : Maintained (tickOf gossipsub env r) topic M run)
    (hafter : Undisturbed topic run.control (heartbeat gossipsub env r).control) :
    Healthy env r (heartbeat gossipsub env r) topic M run.peers := by
  have hbackoff : ∀ p, (heartbeat gossipsub env r).router.backoff topic p =
      run.control.backoff topic p := hafter.backoff
  constructor
  · exact h.nonneg
  · intro p hp hM
    rw [hbackoff]
    exact h.tended.fresh p hp hM
  · intro p hp
    rw [hbackoff]
    refine h.tended.gone p (List.count_pos_iff.mp ?_)
    exact (hafter.pruned p) ▸ List.count_pos_iff.mpr hp
  · exact Nat.le_add_right_of_le h.size_le
  · intro hlo p hrelay hdirect hentry hscore
    rw [hbackoff] at hentry
    exact h.complete hlo p ⟨⟨hrelay, hdirect, hentry⟩, hscore⟩

theorem heartbeat_healthy (hopts : r.options.Sane) (topic : Topic) (M' : OrdSet PeerId)
    (hM' : (heartbeat gossipsub env r).router.mesh.get topic = some M') :
    ∃ M, r.mesh.get topic = some M ∧ Healthy env r (heartbeat gossipsub env r) topic M M' := by
  cases hM : r.mesh.get topic with
  | none =>
    rw [(heartbeat_other gossipsub env hM).1] at hM'
    cases hM'
  | some M =>
    obtain ⟨c, hbefore, hmesh, hafter⟩ := heartbeat_round gossipsub env hM
    rw [hmesh] at hM'
    cases hM'
    exact ⟨M, rfl, healthy_of_maintained
      (maintained_maintainTopic (t := tickOf gossipsub env r) hopts (tended_start hbefore)) hafter⟩

end

section

open SixtiethTick

theorem heartbeat_healthy_sixty : ∃ M, router.mesh.get "news" = some M ∧
    Healthy env router (heartbeat .standard env router) "news" M members :=
  heartbeat_healthy sane "news" members rfl

end

end Relay
end JsWaku
