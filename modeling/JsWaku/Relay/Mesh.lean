import JsWaku.Relay.Stages

/-!
# JsWaku.Relay.Mesh

The five stages in a row, on the mesh of one topic.

* `Sane` — the relations between the degrees that the options are meant to have.
* `mirrors_maintainDegree` — the first four stages note every change they make, once.
* `mirrors_maintainTopic_iff` — the last stage keeps that exactly when it selects nobody, since it
  selects among the members (`Regrafts`).
* `Maintained` — the state of the mesh afterwards.
-/

namespace JsWaku
namespace Relay

open Js Ledger

/-- `Dout <= Dlo <= D <= Dhi` and `Dscore <= D` -/
structure Options.Sane {S : Type} (o : Options S) : Prop where
  Dout_le : o.Dout ≤ o.Dlo
  Dlo_le : o.Dlo ≤ o.D
  D_le : o.D ≤ o.Dhi
  Dscore_le : o.Dscore ≤ o.D

section

variable {S : Type} [LinearOrder S] {t : Tick S} {topic : Topic} {run : MeshRun}
  {M : OrdSet PeerId} {start : Set PeerId}

theorem Kept.cutDown {I : MeshRun → Prop} (h : Kept t topic I) (hI : I run) :
    I (cutDown t topic run) := by
  rcases cutDown_cases t topic run with ⟨heq, _⟩ | ⟨_, heq⟩
  · rwa [heq]
  · rw [heq]
    exact h.prunes hI

theorem mirrors_cutDown (h : Mirrors start (ledger topic run))
    (hnew : t.opts.Dhi < run.peers.size → ∀ p, (ledger topic run).added p = 0) :
    Mirrors start (ledger topic (cutDown t topic run)) := by
  rcases cutDown_cases t topic run with ⟨heq, _⟩ | ⟨hlt, heq⟩
  · rwa [heq]
  · rw [heq, ledger_prunes]
    exact h.removeAll (excess_nodup _) (fun x hx => mem_of_mem_excess hx) fun x _ => hnew hlt x

/-- The last stage selects somebody. -/
structure Regrafts (t : Tick S) (topic : Topic) (run : MeshRun) : Prop where
  tick : t.router.heartbeatTicks % relayOpportunisticGraftTicks = 0
  size : 1 < run.peers.size
  median : medianScore t run.peers < t.opts.scoreThresholds.opportunisticGraftThreshold
  member : ∃ id, id ∈ run.peers ∧ Fit t topic run id ∧
    medianScore t run.peers < t.score (some id)

theorem opportune_iff {id : PeerId} {median : S} (hrelay : RelayPeer t.router topic id) :
    opportune t topic run median id = true ↔
      id ∈ run.peers ∧ Fit t topic run id ∧ median < t.score (some id) := by
  rw [fit_iff hrelay]
  simp [opportune, OrdSet.has, and_assoc]

theorem of_opportune {id : PeerId} {median : S}
    (h : id ∈ relayPeers t topic .opportunistic relayOpportunisticGraftPeers
      (opportune t topic run median)) :
    id ∈ run.peers ∧ Fit t topic run id ∧ median < t.score (some id) := by
  obtain ⟨hrelay, hopp⟩ := of_mem_getRelayPeers (t.shuffles.perm .opportunistic topic) h
  exact (opportune_iff hrelay).mp hopp

theorem opportune_ne_nil {median : S}
    (h : ∃ id, id ∈ run.peers ∧ Fit t topic run id ∧ median < t.score (some id)) :
    (relayPeers t topic .opportunistic relayOpportunisticGraftPeers
      (opportune t topic run median)).toList ≠ [] := by
  obtain ⟨id, hmem, hfit, hscore⟩ := h
  have hin : id ∈ candidates t.router topic (opportune t topic run median) :=
    mem_candidates.mpr ⟨hfit.relay, (opportune_iff hfit.relay).mpr ⟨hmem, hfit, hscore⟩⟩
  have hsize := size_getRelayPeers (t.shuffles.perm .opportunistic topic)
    (by decide : (0 : Int) < relayOpportunisticGraftPeers) t.router topic
    (opportune t topic run median)
  have hpos := List.length_pos_of_mem hin
  intro hnil
  rw [OrdSet.size, ← relayPeers, hnil] at hsize
  simp only [List.length_nil, relayOpportunisticGraftPeers] at hsize
  omega

theorem opportunisticGraft_cases (t : Tick S) (topic : Topic) (run : MeshRun) :
    (opportunisticGraft t topic run = run ∧ ¬ Regrafts t topic run) ∨
    Regrafts t topic run ∧ ∃ xs, xs ≠ [] ∧ (∀ x ∈ xs, x ∈ run.peers ∧ Fit t topic run x) ∧
      opportunisticGraft t topic run = xs.foldl (graftPeer topic) run := by
  unfold opportunisticGraft
  split
  · rename_i hgo
    simp only
    split
    · rename_i hmedian
      by_cases hmember : ∃ id, id ∈ run.peers ∧ Fit t topic run id ∧
          medianScore t run.peers < t.score (some id)
      · refine .inr ⟨⟨hgo.1, hgo.2, hmedian, hmember⟩, _, opportune_ne_nil hmember, ?_, rfl⟩
        intro x hx
        obtain ⟨hmem, hfit, _⟩ := of_opportune hx
        exact ⟨hmem, hfit⟩
      · refine .inl ⟨?_, fun h => hmember h.member⟩
        have hnil : (relayPeers t topic .opportunistic relayOpportunisticGraftPeers
            (opportune t topic run (medianScore t run.peers))).toList = [] :=
          List.eq_nil_iff_forall_not_mem.mpr fun x hx => hmember ⟨x, of_opportune hx⟩
        rw [hnil]
        rfl
    · rename_i hmedian
      exact .inl ⟨rfl, fun h => hmedian h.median⟩
  · rename_i hgo
    exact .inl ⟨rfl, fun h => hgo ⟨h.tick, h.size⟩⟩

theorem cutDown_size_le (topic : Topic) (run : MeshRun) (hD : t.opts.D ≤ t.opts.Dhi) :
    (cutDown t topic run).peers.size ≤ t.opts.Dhi := by
  rcases cutDown_cases t topic run with ⟨heq, hle⟩ | ⟨hlt, heq⟩
  · rwa [heq]
  · rw [heq, size_prunes (excess_nodup _) fun x hx => mem_of_mem_excess hx, excess_length]
    omega

/-- A cut leaves `D` members. -/
theorem cutDown_size (hD : t.opts.D ≤ t.opts.Dhi) (hlt : t.opts.Dhi < run.peers.size) :
    (cutDown t topic run).peers.size = t.opts.D := by
  rcases cutDown_cases t topic run with ⟨_, hle⟩ | ⟨_, heq⟩
  · omega
  · rw [heq, size_prunes (excess_nodup _) fun x hx => mem_of_mem_excess hx, excess_length]
    omega

theorem mem_of_mem_cutDown {id : PeerId} (h : id ∈ (cutDown t topic run).peers) :
    id ∈ run.peers := by
  rcases cutDown_cases t topic run with ⟨heq, _⟩ | ⟨_, heq⟩
  · rwa [heq] at h
  · rw [heq] at h
    exact (mem_prunes.mp h).2

/-- Grafting members changes no mesh. -/
theorem opportunisticGraft_peers (t : Tick S) (topic : Topic) (run : MeshRun) :
    (opportunisticGraft t topic run).peers = run.peers := by
  rcases opportunisticGraft_cases t topic run with ⟨heq, _⟩ | ⟨_, xs, _, hxs, heq⟩
  · rw [heq]
  · rw [heq]
    exact foldl_keeps (I := fun r => r.peers = run.peers)
      (fun r x hx hr => by
        have hmem : x ∈ r.peers := hr ▸ (hxs x hx).1
        exact (OrdSet.add_of_mem hmem).trans hr) rfl

theorem opportunisticGraft_backoff (t : Tick S) (topic : Topic) (run : MeshRun) :
    (opportunisticGraft t topic run).control.backoff = run.control.backoff := by
  rcases opportunisticGraft_cases t topic run with ⟨heq, _⟩ | ⟨_, xs, _, _, heq⟩
  · rw [heq]
  · rw [heq, backoff_grafts]

theorem Kept.opportunisticGraft {I : MeshRun → Prop} (h : Kept t topic I) (hI : I run) :
    I (opportunisticGraft t topic run) := by
  rcases opportunisticGraft_cases t topic run with ⟨heq, _⟩ | ⟨_, xs, _, hxs, heq⟩
  · rwa [heq]
  · rw [heq]
    exact h.grafts (fun x hx => (hxs x hx).2) hI

end

section

variable {S : Type} [LinearOrder S] [Zero S] {t : Tick S} {topic : Topic} {run : MeshRun}
  {M : OrdSet PeerId} {start : Set PeerId}

section

variable {I : MeshRun → Prop}

theorem Kept.dropNegative (h : Kept t topic I) (hI : I run) : I (dropNegative t topic run) := by
  obtain ⟨noPX, heq⟩ := dropNegative_eq t topic run
  rw [heq]
  exact h.noPX _ _ (h.prunes hI)

theorem Kept.refilled {run' : MeshRun} (h : Kept t topic I) (hr : Refilled t topic run run')
    (hI : I run) : I run' := by
  cases hr with
  | same => exact hI
  | grafts draw count => exact h.grafts (fun x hx => (fit_of_mem_relayPeers hx).1) hI

theorem Kept.maintainDegree (h : Kept t topic I) (hI : I run) : I (maintainDegree t topic run) := by
  have hdropped := h.dropNegative hI
  have hcut := h.cutDown (h.refilled (refilled_fillUp t topic _) hdropped)
  exact h.refilled (refilled_topUpOutbound t topic _) hcut

/-- What every edit keeps, a heartbeat keeps for the mesh of a topic. -/
theorem Kept.maintainTopic (h : Kept t topic I) (hI : I run) : I (maintainTopic t topic run) :=
  h.opportunisticGraft (h.maintainDegree hI)

end

theorem added_dropNegative (p : PeerId) :
    (ledger topic (dropNegative t topic run)).added p = (ledger topic run).added p := by
  obtain ⟨noPX, heq⟩ := dropNegative_eq t topic run
  rw [heq]
  simp [ledger, MeshRun.withNoPX]

theorem mirrors_dropNegative (h : Mirrors start (ledger topic run))
    (hnew : ∀ p, (ledger topic run).added p = 0) :
    Mirrors start (ledger topic (dropNegative t topic run)) := by
  obtain ⟨noPX, heq⟩ := dropNegative_eq t topic run
  have hprunes : Mirrors start (ledger topic
      ((negatives t run.peers).foldl (prunePeer t topic) run)) := by
    rw [ledger_prunes]
    exact h.removeAll (run.peers.nodup.filter _) (fun x hx => List.mem_of_mem_filter hx)
      fun x _ => hnew x
  rw [heq]
  exact hprunes

theorem mirrors_refilled {run' : MeshRun} (hr : Refilled t topic run run')
    (h : Mirrors start (ledger topic run)) (ht : Tended t topic M run) :
    Mirrors start (ledger topic run') := by
  cases hr with
  | same => exact h
  | grafts draw count =>
    rw [ledger_grafts]
    refine h.addAll (relayPeers t topic draw count _).nodup ?_ ?_
    · intro x hx
      exact (fit_of_mem_relayPeers hx).2.1
    · intro x hx
      exact ht.removed_eq_zero (fit_of_mem_relayPeers hx).1.entry

theorem mirrors_maintainDegree (hopts : t.opts.Sane) (h : Mirrors start (ledger topic run))
    (ht : Tended t topic M run) (hnew : ∀ p, (ledger topic run).added p = 0) :
    Mirrors start (ledger topic (maintainDegree t topic run)) := by
  have hkept := tended_kept t topic M
  have ht₁ := hkept.dropNegative ht
  have ht₂ := hkept.refilled (refilled_fillUp t topic _) ht₁
  have h₂ := mirrors_refilled (refilled_fillUp t topic _) (mirrors_dropNegative h hnew) ht₁
  refine mirrors_refilled (refilled_topUpOutbound t topic _) (mirrors_cutDown h₂ ?_)
    (hkept.cutDown ht₂)
  -- A cut follows a fill-up that grafted nobody.
  intro hlt p
  rcases fillUp_cases t topic (dropNegative t topic run) with ⟨heq, _⟩ | ⟨hlo, _⟩
  · rw [heq, added_dropNegative, hnew]
  · have hsize := fillUp_size_le topic hopts.Dlo_le hlo
    have hD := hopts.D_le
    omega

/-- All five stages note every change once exactly when the last one selects nobody. -/
theorem mirrors_maintainTopic_iff (hopts : t.opts.Sane) (h : Mirrors start (ledger topic run))
    (ht : Tended t topic M run) (hnew : ∀ p, (ledger topic run).added p = 0) :
    Mirrors start (ledger topic (maintainTopic t topic run)) ↔
      ¬ Regrafts t topic (maintainDegree t topic run) := by
  have hdegree := mirrors_maintainDegree hopts h ht hnew
  rw [maintainTopic]
  rcases opportunisticGraft_cases t topic (maintainDegree t topic run)
    with ⟨heq, hno⟩ | ⟨hyes, xs, hne, hxs, heq⟩
  · rw [heq]
    exact ⟨fun _ => hno, fun _ => hdegree⟩
  · obtain ⟨x, hx⟩ := List.exists_mem_of_ne_nil xs hne
    rw [heq, ledger_grafts]
    exact ⟨fun hm => absurd hm (not_mirrors_addAll hdegree hx (hxs x hx).1),
      fun hno => absurd hyes hno⟩

/-! ## The mesh afterwards -/

theorem nonneg_refilled {run' : MeshRun} (hr : Refilled t topic run run')
    (h : ∀ p, p ∈ run.peers → 0 ≤ t.score (some p)) :
    ∀ p, p ∈ run'.peers → 0 ≤ t.score (some p) := by
  cases hr with
  | same => exact h
  | grafts draw count =>
    intro p hp
    rcases mem_grafts.mp hp with hp | hp
    · exact (fit_of_mem_relayPeers hp).2.2
    · exact h p hp

theorem nonneg_maintainDegree {p : PeerId} (h : p ∈ (maintainDegree t topic run).peers) :
    0 ≤ t.score (some p) := by
  refine nonneg_refilled (refilled_topUpOutbound t topic _) ?_ p h
  intro p hp
  exact nonneg_refilled (refilled_fillUp t topic _) (fun p hp => dropNegative_nonneg hp) p
    (mem_of_mem_cutDown hp)

theorem topUpOutbound_size_le (t : Tick S) (topic : Topic) (run : MeshRun) :
    (topUpOutbound t topic run).peers.size ≤ run.peers.size + t.opts.Dout := by
  rcases topUpOutbound_cases t topic run with heq | ⟨_, hout, heq⟩
  · rw [heq]
    omega
  · have hcount : (0 : Int) < (t.opts.Dout : Int) - outboundCount t run.peers.toList := by omega
    have hsize := size_relayPeers_le t topic .topUp hcount (graftable t topic run)
    have hle := size_grafts_le topic run (relayPeers t topic .topUp
      ((t.opts.Dout : Int) - outboundCount t run.peers.toList) (graftable t topic run)).toList
    rw [heq]
    unfold OrdSet.size at hsize hle ⊢
    omega

theorem topUpOutbound_grows (t : Tick S) (topic : Topic) (run : MeshRun) :
    run.peers.size ≤ (topUpOutbound t topic run).peers.size := by
  rcases topUpOutbound_cases t topic run with heq | ⟨_, _, heq⟩
  · rw [heq]
  · rw [heq, size_grafts topic (relayPeers t topic .topUp _ _).nodup fun x hx =>
      (fit_of_mem_relayPeers hx).2.1]
    omega

/-- A peer the mesh could take in. -/
def Eligible (t : Tick S) (topic : Topic) (run : MeshRun) (id : PeerId) : Prop :=
  Fit t topic run id ∧ 0 ≤ t.score (some id)

/-- Where more peers were asked for than there are, all of them are grafted. -/
theorem mem_grafts_of_lt {draw : Draw} {count : Int} {id : PeerId}
    (hlt : ((relayPeers t topic draw count (graftable t topic run)).size : Int) < count)
    (h : Eligible t topic run id) :
    id ∈ ((relayPeers t topic draw count (graftable t topic run)).toList.foldl (graftPeer topic)
      run).peers := by
  by_cases hmem : id ∈ run.peers
  · exact mem_grafts.mpr (.inr hmem)
  · exact mem_grafts.mpr (.inl (mem_getRelayPeers_of_lt (t.shuffles.perm draw topic) hlt h.1.relay
      ((graftable_iff h.1.relay).mpr ⟨h.1, hmem, h.2⟩)))

/-- A mesh that stays below `Dlo` has everyone it could take in. -/
theorem fillUp_complete (hD : t.opts.Dlo ≤ t.opts.D)
    (hlo : (fillUp t topic run).peers.size < t.opts.Dlo) {id : PeerId}
    (h : Eligible t topic (fillUp t topic run) id) : id ∈ (fillUp t topic run).peers := by
  rcases fillUp_cases t topic run with ⟨heq, hle⟩ | ⟨hlt, heq⟩
  · rw [heq] at hlo
    omega
  · rw [heq] at h hlo ⊢
    have hnew := size_grafts topic
      (relayPeers t topic .fill ((t.opts.D : Int) - run.peers.size) (graftable t topic run)).nodup
      fun x hx => (fit_of_mem_relayPeers hx).2.1
    have hentry := h.1.entry
    rw [backoff_grafts] at hentry
    refine mem_grafts_of_lt ?_ ⟨⟨h.1.relay, h.1.indirect, hentry⟩, h.2⟩
    unfold OrdSet.size at hnew hlo ⊢
    omega

/-- The mesh of a topic after a heartbeat, `M` being the one before it. -/
structure Maintained (t : Tick S) (topic : Topic) (M : OrdSet PeerId) (run : MeshRun) : Prop where
  nonneg : ∀ p, p ∈ run.peers → 0 ≤ t.score (some p)
  tended : Tended t topic M run
  size_le : run.peers.size ≤ t.opts.Dhi + t.opts.Dout
  complete : run.peers.size < t.opts.Dlo → ∀ p, Eligible t topic run p → p ∈ run.peers

theorem maintainDegree_complete (hopts : t.opts.Sane)
    (hlo : (maintainDegree t topic run).peers.size < t.opts.Dlo) {id : PeerId}
    (h : Eligible t topic (maintainDegree t topic run) id) :
    id ∈ (maintainDegree t topic run).peers := by
  have hD := hopts.Dlo_le
  -- Neither the top-up nor the cut ran, so the mesh is the one the fill-up left.
  have htop : maintainDegree t topic run =
      cutDown t topic (fillUp t topic (dropNegative t topic run)) := by
    have hgrow := topUpOutbound_grows t topic
      (cutDown t topic (fillUp t topic (dropNegative t topic run)))
    rcases topUpOutbound_cases t topic (cutDown t topic (fillUp t topic (dropNegative t topic run)))
      with heq | ⟨hle, _⟩
    · exact heq
    · rw [maintainDegree] at hlo
      omega
  rw [htop] at hlo h ⊢
  rcases cutDown_cases t topic (fillUp t topic (dropNegative t topic run)) with ⟨hcut, _⟩ | ⟨hlt, _⟩
  · rw [hcut] at hlo h ⊢
    exact fillUp_complete hD hlo h
  · rw [cutDown_size hopts.D_le hlt] at hlo
    omega

theorem maintained_maintainTopic (hopts : t.opts.Sane) (ht : Tended t topic M run) :
    Maintained t topic M (maintainTopic t topic run) := by
  have hpeers := opportunisticGraft_peers t topic (maintainDegree t topic run)
  have hbackoff := opportunisticGraft_backoff t topic (maintainDegree t topic run)
  refine ⟨?_, (tended_kept t topic M).maintainTopic ht, ?_, ?_⟩
  · intro p hp
    rw [maintainTopic, hpeers] at hp
    exact nonneg_maintainDegree hp
  · rw [maintainTopic, hpeers]
    have hcut := cutDown_size_le topic (fillUp t topic (dropNegative t topic run)) hopts.D_le
    have htop := topUpOutbound_size_le t topic
      (cutDown t topic (fillUp t topic (dropNegative t topic run)))
    rw [maintainDegree]
    omega
  · intro hlo p hp
    rw [maintainTopic, hpeers] at hlo ⊢
    refine maintainDegree_complete hopts hlo ⟨⟨hp.1.relay, hp.1.indirect, ?_⟩, hp.2⟩
    rw [← hbackoff]
    exact hp.1.entry

end

end Relay
end JsWaku
