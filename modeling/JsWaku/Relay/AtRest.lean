import JsWaku.Relay.Agreement
import JsWaku.Relay.Selection

/-!
# JsWaku.Relay.AtRest

Meshes that the heartbeat leaves alone.

* `AtRest` — no member has a negative score, there are not too many of them, and where a stage would
  look for more there is nobody it could take in.
* `heartbeat_leaves_iff` — these are exactly the meshes that a heartbeat does not change.
* `run_leaves` — a mesh with enough members, and enough outbound ones, stays the same for as long as
  they keep their scores and connections, and nobody is told that it has changed.
-/

namespace JsWaku
namespace Relay

open Js Trace

section

variable {S : Type} [LinearOrder S] {t : Tick S} {topic : Topic} {run : MeshRun}

structure AtRest [Zero S] (t : Tick S) (topic : Topic) (run : MeshRun) : Prop where
  nonneg : ∀ p, p ∈ run.peers → 0 ≤ t.score (some p)
  size_le : run.peers.size ≤ t.opts.Dhi
  nobody : run.peers.size < t.opts.Dlo ∨ outboundCount t run.peers.toList < t.opts.Dout →
    ∀ p, Eligible t topic run p → p ∈ run.peers

@[simp] theorem toPrune_grafts {xs : List PeerId} :
    (xs.foldl (graftPeer topic) run).control.toPrune = run.control.toPrune :=
  foldl_keeps (fun _ _ _ h => h) (I := fun r => r.control.toPrune = run.control.toPrune) rfl

theorem cutDown_of_le (topic : Topic) (h : run.peers.size ≤ t.opts.Dhi) :
    cutDown t topic run = run := by
  rcases cutDown_cases t topic run with ⟨heq, _⟩ | ⟨hlt, _⟩
  · exact heq
  · exact absurd hlt (Nat.not_lt.mpr h)

variable [Zero S] {id : PeerId}

/-- Nothing to choose from, nobody grafted. -/
theorem grafts_nobody (h : ∀ p, Eligible t topic run p → p ∈ run.peers) (draw : Draw) (count : Int) :
    (relayPeers t topic draw count (graftable t topic run)).toList.foldl (graftPeer topic) run =
      run := by
  have hnil : (relayPeers t topic draw count (graftable t topic run)).toList = [] := by
    refine List.eq_nil_iff_forall_not_mem.mpr fun x hx => ?_
    obtain ⟨hfit, hnew, hscore⟩ := fit_of_mem_relayPeers hx
    exact hnew (h x ⟨hfit, hscore⟩)
  rw [hnil]
  rfl

theorem dropNegative_of_nonneg (topic : Topic) (h : ∀ p, p ∈ run.peers → 0 ≤ t.score (some p)) :
    ∃ noPX, dropNegative t topic run = run.withNoPX noPX := by
  obtain ⟨noPX, heq⟩ := dropNegative_eq t topic run
  have hnil : negatives t run.peers = [] :=
    List.filter_eq_nil_iff.mpr fun x hx => by simpa using h x hx
  rw [hnil] at heq
  exact ⟨noPX, heq⟩

theorem AtRest.withNoPX (h : AtRest t topic run) (noPX : PeerId → Bool) :
    AtRest t topic (run.withNoPX noPX) :=
  ⟨h.nonneg, h.size_le, fun hfew p hp => h.nobody hfew p ⟨⟨hp.1.relay, hp.1.indirect, hp.1.entry⟩, hp.2⟩⟩

theorem AtRest.fillUp (h : AtRest t topic run) : fillUp t topic run = run := by
  rcases fillUp_cases t topic run with ⟨heq, _⟩ | ⟨hlo, heq⟩
  · exact heq
  · rw [heq]
    exact grafts_nobody (h.nobody (.inl hlo)) _ _

theorem AtRest.topUpOutbound (h : AtRest t topic run) : topUpOutbound t topic run = run := by
  rcases topUpOutbound_cases t topic run with heq | ⟨_, hout, heq⟩
  · exact heq
  · rw [heq]
    exact grafts_nobody (h.nobody (.inr hout)) _ _

theorem AtRest.maintainDegree (h : AtRest t topic run) :
    ∃ noPX, maintainDegree t topic run = run.withNoPX noPX := by
  obtain ⟨noPX, heq⟩ := dropNegative_of_nonneg topic h.nonneg
  have hrest := h.withNoPX noPX
  refine ⟨noPX, ?_⟩
  rw [Relay.maintainDegree, heq, hrest.fillUp, cutDown_of_le topic hrest.size_le, hrest.topUpOutbound]

theorem mem_topUpOutbound (h : id ∈ run.peers) : id ∈ (topUpOutbound t topic run).peers := by
  rcases topUpOutbound_cases t topic run with heq | ⟨_, _, heq⟩
  · rwa [heq]
  · rw [heq]
    exact mem_grafts.mpr (.inr h)

/-- Where there is somebody to choose, somebody new is grafted. -/
theorem grafts_somebody (draw : Draw) (count : Int) (hid : Eligible t topic run id)
    (hnew : ¬ id ∈ run.peers) : ∃ x, ¬ x ∈ run.peers ∧
      x ∈ ((relayPeers t topic draw count (graftable t topic run)).toList.foldl (graftPeer topic)
        run).peers := by
  have hgraftable := (graftable_iff hid.1.relay).mpr ⟨hid.1, hnew, hid.2⟩
  have hpos : 0 < (relayPeers t topic draw count (graftable t topic run)).size :=
    (getRelayPeers_pos_iff (t.shuffles.perm draw topic)).mpr ⟨id, hid.1.relay, hgraftable⟩
  obtain ⟨x, hx⟩ := List.exists_mem_of_length_pos hpos
  exact ⟨x, (fit_of_mem_relayPeers hx).2.1, mem_grafts.mpr (.inl hx)⟩

/-- Whoever was cut is in backoff, so nobody takes them in again. -/
theorem not_mem_topUpOutbound (hout : ¬ id ∈ run.peers)
    (hentry : run.control.backoff topic id ≠ none) : ¬ id ∈ (topUpOutbound t topic run).peers := by
  rcases topUpOutbound_cases t topic run with heq | ⟨_, _, heq⟩
  · rwa [heq]
  · rw [heq, mem_grafts]
    rintro (hin | hin)
    · exact hentry (fit_of_mem_relayPeers hin).1.entry
    · exact hout hin

theorem size_le_of_leaves (hopts : t.opts.Sane) (hnonneg : ∀ p, p ∈ run.peers → 0 ≤ t.score (some p))
    (h : (maintainDegree t topic run).peers = run.peers) : run.peers.size ≤ t.opts.Dhi := by
  obtain ⟨noPX, hdrop⟩ := dropNegative_of_nonneg topic hnonneg
  by_contra hlarge
  have hlo := hopts.Dlo_le
  have hhi := hopts.D_le
  -- The cut has a member to prune.
  have hpos : 0 < (excess t topic run.peers).length := by
    rw [excess_length]
    omega
  obtain ⟨x, hx⟩ := List.exists_mem_of_length_pos hpos
  have hfill : fillUp t topic (run.withNoPX noPX) = run.withNoPX noPX := by
    rcases fillUp_cases t topic (run.withNoPX noPX) with ⟨heq, _⟩ | ⟨hfew, _⟩
    · exact heq
    · change run.peers.size < _ at hfew
      omega
  have hcut : cutDown t topic (run.withNoPX noPX) =
      (excess t topic run.peers).foldl (prunePeer t topic) (run.withNoPX noPX) := by
    rcases cutDown_cases t topic (run.withNoPX noPX) with ⟨_, hle⟩ | ⟨_, heq⟩
    · exact absurd hle hlarge
    · exact heq
  have hout : ¬ x ∈ (maintainDegree t topic run).peers := by
    rw [maintainDegree, hdrop, hfill, hcut]
    exact not_mem_topUpOutbound (fun hin => (mem_prunes.mp hin).1 hx) (backoff_prunes_of_mem hx)
  rw [h] at hout
  exact hout (mem_of_mem_excess hx)

theorem nobody_of_leaves (hopts : t.opts.Sane) (hnonneg : ∀ p, p ∈ run.peers → 0 ≤ t.score (some p))
    (hsize : run.peers.size ≤ t.opts.Dhi) (h : (maintainDegree t topic run).peers = run.peers)
    (hfew : run.peers.size < t.opts.Dlo ∨ outboundCount t run.peers.toList < t.opts.Dout)
    (hid : Eligible t topic run id) : id ∈ run.peers := by
  obtain ⟨noPX, hdrop⟩ := dropNegative_of_nonneg topic hnonneg
  by_contra hnew
  have helig : Eligible t topic (run.withNoPX noPX) id :=
    ⟨⟨hid.1.relay, hid.1.indirect, hid.1.entry⟩, hid.2⟩
  suffices hin : ∃ x, ¬ x ∈ run.peers ∧ x ∈ (maintainDegree t topic run).peers by
    obtain ⟨x, hnot, hx⟩ := hin
    rw [h] at hx
    exact hnot hx
  rw [maintainDegree, hdrop]
  rcases fillUp_cases t topic (run.withNoPX noPX) with ⟨heq, hlo⟩ | ⟨hlo, heq⟩
  · -- The mesh is not small, so the last filling stage is the one that looks for somebody.
    have hcut : cutDown t topic (run.withNoPX noPX) = run.withNoPX noPX :=
      cutDown_of_le topic hsize
    have hout := hfew.resolve_left (Nat.not_lt.mpr hlo)
    rw [heq, hcut, topUpOutbound_eq topic hlo hout]
    exact grafts_somebody _ _ helig hnew
  · obtain ⟨x, hnot, hx⟩ := grafts_somebody .fill _ helig hnew
    have hle := fillUp_size_le topic hopts.Dlo_le hlo
    refine ⟨x, hnot, mem_topUpOutbound ?_⟩
    rw [cutDown_of_le topic (hle.trans hopts.D_le), heq]
    exact hx

theorem AtRest.maintainTopic (h : AtRest t topic run) :
    (maintainTopic t topic run).peers = run.peers := by
  obtain ⟨noPX, heq⟩ := h.maintainDegree
  rw [Relay.maintainTopic, opportunisticGraft_peers, heq]
  rfl

theorem atRest_of_leaves (hopts : t.opts.Sane) (h : (maintainTopic t topic run).peers = run.peers) :
    AtRest t topic run := by
  rw [maintainTopic, opportunisticGraft_peers] at h
  have hnonneg : ∀ p, p ∈ run.peers → 0 ≤ t.score (some p) := fun p hp =>
    nonneg_maintainDegree (h ▸ hp)
  have hsize := size_le_of_leaves hopts hnonneg h
  exact ⟨hnonneg, hsize, fun hfew p hp => nobody_of_leaves hopts hnonneg hsize h hfew hp⟩

end

section

variable {S : Type} [LinearOrder S] [Zero S] {gossipsub : Gossipsub} {env : Surroundings S}
  {r : Router S} {topic : Topic} {M : OrdSet PeerId} {id : PeerId}

theorem Alike.atRest {t : Tick S} {run run' : MeshRun} (h : Alike topic run run')
    (hrest : AtRest t topic run) : AtRest t topic run' := by
  obtain ⟨hnonneg, hsize, hnobody⟩ := hrest
  rw [h.peers] at hnonneg hsize hnobody
  exact ⟨hnonneg, hsize, fun hfew p hp => hnobody hfew p ⟨h.fit.mpr hp.1, hp.2⟩⟩

theorem Alike.symm {run run' : MeshRun} (h : Alike topic run run') : Alike topic run' run :=
  ⟨h.peers.symm, fun p => (h.entry p).symm⟩

theorem round_of_atRest (hM : r.mesh.get topic = some M)
    (h : AtRest (tickOf gossipsub env r) topic ⟨M, (tickOf gossipsub env r).start⟩) :
    (heartbeat gossipsub env r).router.mesh.get topic = some M := by
  obtain ⟨c, hbefore, hmesh, _⟩ := heartbeat_round gossipsub env hM
  exact hmesh.trans (congrArg some ((hbefore.alike M).symm.atRest h).maintainTopic)

theorem atRest_of_round (hopts : r.options.Sane) (hM : r.mesh.get topic = some M)
    (h : (heartbeat gossipsub env r).router.mesh.get topic = some M) :
    AtRest (tickOf gossipsub env r) topic ⟨M, (tickOf gossipsub env r).start⟩ := by
  obtain ⟨c, hbefore, hmesh, _⟩ := heartbeat_round gossipsub env hM
  rw [hmesh, Option.some_inj] at h
  exact (hbefore.alike M).atRest (atRest_of_leaves hopts h)

theorem heartbeat_leaves_iff (hopts : r.options.Sane) :
    (∀ topic, (heartbeat gossipsub env r).router.mesh.get topic = r.mesh.get topic) ↔
      ∀ topic M, r.mesh.get topic = some M →
        AtRest (tickOf gossipsub env r) topic ⟨M, (tickOf gossipsub env r).start⟩ := by
  constructor
  · intro h topic M hM
    exact atRest_of_round hopts hM ((h topic).trans hM)
  · intro h topic
    cases hM : r.mesh.get topic with
    | none => exact (heartbeat_other gossipsub env hM).1
    | some M => exact round_of_atRest hM (h topic M hM)

/-- Nobody is pruned from a mesh at rest, and nobody else is grafted. -/
theorem lists_of_atRest (hM : r.mesh.get topic = some M)
    (h : AtRest (tickOf gossipsub env r) topic ⟨M, (tickOf gossipsub env r).start⟩) :
    topic ∉ (heartbeat gossipsub env r).toPrune id ∧
      (topic ∈ (heartbeat gossipsub env r).toGraft id → id ∈ M) := by
  obtain ⟨c, hbefore, _, hafter⟩ := heartbeat_round gossipsub env hM
  obtain ⟨noPX, heq⟩ := ((hbefore.alike M).symm.atRest h).maintainDegree
  change topic ∉ (heartbeat gossipsub env r).control.toPrune id ∧
    (topic ∈ (heartbeat gossipsub env r).control.toGraft id → id ∈ M)
  rw [hafter.mem_toPrune, hafter.mem_toGraft, maintainTopic, heq]
  have hpruned : topic ∉ c.toPrune id := fun hid => List.not_mem_nil (hbefore.mem_toPrune.mp hid)
  have hgrafted : topic ∉ c.toGraft id := fun hid => List.not_mem_nil (hbefore.mem_toGraft.mp hid)
  rcases opportunisticGraft_cases (tickOf gossipsub env r) topic
    ((MeshRun.mk M c).withNoPX noPX) with ⟨heq, _⟩ | ⟨_, xs, _, hxs, heq⟩
  · rw [heq]
    exact ⟨hpruned, fun hid => absurd hid hgrafted⟩
  · rw [heq, toPrune_grafts, mem_toGraft_grafts]
    exact ⟨hpruned, fun hid => (hxs id (hid.resolve_right hgrafted)).1⟩

end

/-! ## Runs -/

section

variable {S : Type} [LinearOrder S] [Zero S] {gossipsub : Gossipsub} {topic : Topic}
  {M : OrdSet PeerId} {o : Options S} {s : Conversation S} {e : Event S}

/-- The members keep their scores and stay connected, enough of them outbound, and the topic is not
joined anew. -/
def Steady (o : Options S) (topic : Topic) (M : OrdSet PeerId) : Event S → Prop
  | .heartbeat env => ∀ p, p ∈ M → 0 ≤ env.score (some p)
  | .join _ topic' => topic' ≠ topic
  | .publish _ _ => True
  | .change peers _ outbound =>
    (∀ p, p ∈ M → peers p ≠ none) ∧ o.Dout ≤ M.toList.countP outbound

/-- Enough members, not too many, and enough of them outbound. -/
structure Staffed (o : Options S) (M : OrdSet PeerId) (outbound : PeerId → Bool) : Prop where
  Dlo_le : o.Dlo ≤ M.size
  le_Dhi : M.size ≤ o.Dhi
  Dout_le : o.Dout ≤ M.toList.countP outbound

/-- `M` is the mesh of the topic, and nobody has heard of a change to it. -/
structure Unchanged (o : Options S) (topic : Topic) (M : OrdSet PeerId) (s : Conversation S) :
    Prop where
  options : s.router.options = o
  mesh : s.router.mesh.get topic = some M
  staffed : Staffed o M s.router.outbound
  unpruned : ∀ id, .prune id topic ∉ s.told id
  grafted : ∀ id, .graft id topic ∈ s.told id → id ∈ M

theorem Unchanged.converse (h : Unchanged o topic M s)
    (hmesh : (next gossipsub s.router e).mesh.get topic = some M)
    (hstaffed : Staffed o M (next gossipsub s.router e).outbound)
    (hsends : ∀ id, .prune id topic ∉ sends gossipsub s.router e id ∧
      (.graft id topic ∈ sends gossipsub s.router e id → id ∈ M)) :
    Unchanged o topic M (converse gossipsub s e) where
  options := (next_options gossipsub s.router e).trans h.options
  mesh := hmesh
  staffed := hstaffed
  unpruned id hid := (List.mem_append.mp hid).elim (h.unpruned id) (hsends id).1
  grafted id hid := (List.mem_append.mp hid).elim (h.grafted id) (hsends id).2

theorem unchanged_heartbeat {env : Surroundings S} (h : Unchanged o topic M s)
    (hscores : ∀ p, p ∈ M → 0 ≤ env.score (some p)) :
    Unchanged o topic M (converse gossipsub s (.heartbeat env)) := by
  obtain rfl := h.options
  have hrest : AtRest (tickOf gossipsub env s.router) topic
      ⟨M, (tickOf gossipsub env s.router).start⟩ :=
    ⟨hscores, h.staffed.le_Dhi, fun hfew => absurd hfew (not_or.mpr
      ⟨Nat.not_lt.mpr h.staffed.Dlo_le, Nat.not_lt.mpr h.staffed.Dout_le⟩)⟩
  refine h.converse (round_of_atRest h.mesh hrest) h.staffed fun id => ?_
  obtain ⟨hpruned, hgrafted⟩ :=
    @lists_of_atRest S _ _ gossipsub env s.router topic M id h.mesh hrest
  simp only [sends, List.mem_append, List.mem_map, reduceCtorEq, and_false, exists_false, false_or,
    or_false, ControlMessage.prune.injEq, ControlMessage.graft.injEq, true_and, exists_eq_right]
  exact ⟨hpruned, hgrafted⟩

theorem unchanged_join {env : Surroundings S} {topic' : Topic} (h : Unchanged o topic M s)
    (hne : topic' ≠ topic) : Unchanged o topic M (converse gossipsub s (.join env topic')) := by
  have hsends : ∀ id, .prune id topic ∉ sends gossipsub s.router (.join env topic') id ∧
      (.graft id topic ∈ sends gossipsub s.router (.join env topic') id → id ∈ M) := by
    intro id
    by_cases hstarted : s.router.started = true
    · rw [sends_join hstarted]
      split <;> simp [hne.symm]
    · simp [sends, join, hstarted]
  have hmesh : (s.router.mesh.set topic' (joinPeers env topic' s.router)).get topic = some M := by
    rw [OrdMap.get_set_of_ne hne]
    exact h.mesh
  rcases next_join_cases gossipsub env topic' s.router with ⟨_, heq⟩ | ⟨_, _, heq⟩ | ⟨_, _, heq⟩
  · exact h.converse (by rw [heq]; exact h.mesh) (by rw [heq]; exact h.staffed) hsends
  · exact h.converse (by rw [heq]; exact hmesh) (by rw [heq]; exact h.staffed) hsends
  · exact h.converse (by rw [heq]; exact hmesh) (by rw [heq]; exact h.staffed) hsends

theorem unchanged_change {peers : PeerId → Option String}
    {topics : Topic → Option (OrdSet PeerId)} {outbound : PeerId → Bool}
    (h : Unchanged o topic M s) (hpeers : ∀ p, p ∈ M → peers p ≠ none)
    (houtbound : o.Dout ≤ M.toList.countP outbound) :
    Unchanged o topic M (converse gossipsub s (.change peers topics outbound)) := by
  have hall : M.filter (fun id => !s.router.loses peers id) = M := by
    refine OrdSet.filter_eq_self fun p hp => ?_
    obtain ⟨protocol, hprotocol⟩ := Option.ne_none_iff_exists'.mp (hpeers p hp)
    simp [Router.loses, hprotocol]
  refine h.converse ?_ ⟨h.staffed.Dlo_le, h.staffed.le_Dhi, houtbound⟩
    fun id => ⟨List.not_mem_nil, fun hid => nomatch hid⟩
  change (s.router.change peers topics outbound).mesh.get topic = some M
  rw [Router.change, OrdMap.get_mapValues, h.mesh, Option.map_some, hall]

theorem unchanged_converse (h : Unchanged o topic M s)
    (hsteady : Steady o topic M e) : Unchanged o topic M (converse gossipsub s e) := by
  cases e with
  | heartbeat env => exact unchanged_heartbeat h hsteady
  | join env topic' => exact unchanged_join h hsteady
  | publish env msg =>
    have hpublished := published_publish env msg s.router
    refine h.converse ?_ ?_ fun id => ⟨List.not_mem_nil, fun hid => nomatch hid⟩
    · change (publish env msg s.router).1.mesh.get topic = some M
      rw [hpublished.mesh]
      exact h.mesh
    · change Staffed o M (publish env msg s.router).1.outbound
      rw [hpublished.rest]
      exact h.staffed
  | change peers topics outbound => exact unchanged_change h hsteady.1 hsteady.2

theorem run_leaves {r : Router S} (gossipsub : Gossipsub) (hM : r.mesh.get topic = some M)
    (hstaffed : Staffed r.options M r.outbound)
    (events : List (Event S)) (hsteady : ∀ e ∈ events, Steady r.options topic M e) :
    Unchanged r.options topic M (after (converse gossipsub) ⟨r, fun _ => []⟩ events) := by
  have hstart : Unchanged r.options topic M ⟨r, fun _ => []⟩ :=
    ⟨rfl, hM, hstaffed, fun _ => List.not_mem_nil, fun _ hid => nomatch hid⟩
  refine after_invariant (I := fun events s => (∀ e ∈ events, Steady r.options topic M e) →
    Unchanged r.options topic M s) (fun _ => hstart) ?_ events hsteady
  intro events s e h hall
  rw [List.forall_mem_append, List.forall_mem_singleton] at hall
  exact unchanged_converse (h hall.1) hall.2

end

namespace SixtiethTick

theorem score_nonneg (p : PeerId) : 0 ≤ env.score (some p) := by
  change (0 : Int) ≤ if some p = some "d" then 1 else 0
  split <;> decide

theorem atRest {topic : Topic} {M : OrdSet PeerId} (hM : router.mesh.get topic = some M) :
    AtRest (tickOf .standard env router) topic ⟨M, (tickOf .standard env router).start⟩ := by
  have hmesh : router.mesh.get topic = if "news" = topic then some members else none := rfl
  rw [hmesh] at hM
  split at hM
  · rename_i htopic
    cases hM
    subst htopic
    exact ⟨fun p _ => score_nonneg p, by decide, fun _ p hp => OrdSet.has_iff.mp hp.1.relay.1⟩
  · cases hM

/-- All members are outbound. -/
def staffed : Router Int := { router with outbound := fun _ => true }

/-- Everybody connects, and nobody subscribes any more. -/
def crowd : Event Int := .change (fun _ => some "/vac/waku/relay/2.0.0") (fun _ => none) fun _ => true

def events : List (Event Int) :=
  [.heartbeat env, .publish env ⟨none, "b", ["news"]⟩, .join env "other", crowd, .heartbeat env]

theorem steady : ∀ e ∈ events, Steady staffed.options "news" members e := by
  have hscores : ∀ p, p ∈ members → 0 ≤ env.score (some p) := fun p _ => score_nonneg p
  have hother : "other" ≠ "news" := by decide
  have hcrowd : Steady staffed.options "news" members crowd :=
    ⟨fun _ _ => Option.some_ne_none _, by decide⟩
  simp only [events, List.forall_mem_cons]
  exact ⟨hscores, trivial, hother, hcrowd, hscores, fun _ he => nomatch he⟩

end SixtiethTick

theorem heartbeat_leaves_sixty :
    (heartbeat .standard SixtiethTick.env SixtiethTick.router).router.mesh.get "news" =
      some SixtiethTick.members :=
  (heartbeat_leaves_iff SixtiethTick.sane).mpr (fun _ _ => SixtiethTick.atRest) "news"

theorem run_leaves_sixty : Unchanged SixtiethTick.staffed.options "news" SixtiethTick.members
    (after (converse .standard) ⟨SixtiethTick.staffed, fun _ => []⟩ SixtiethTick.events) :=
  run_leaves .standard rfl ⟨by decide, by decide, by decide⟩ SixtiethTick.events SixtiethTick.steady

end Relay
end JsWaku
