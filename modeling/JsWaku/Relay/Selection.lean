import JsWaku.Relay.Mesh

/-!
# JsWaku.Relay.Selection

Whom the last two stages of a heartbeat select, set against what they select for.

* `ToppedUp` — newcomers are outbound, and the quota is met or nobody is left who could meet it.
* `topUpOutbound_iff` — that holds whatever the shuffle exactly when only outbound peers could be
  grafted, since the filter of the stage does not ask.
* `Improved` — peers from outside that score above the median come in when it is low.
* `opportunisticGraft_improves_iff` — that holds exactly when nobody should come in, and no member
  is grafted for the median of an odd mesh.
-/

namespace JsWaku
namespace Relay

open Js

section

variable {S : Type} {t : Tick S} {topic : Topic} {run : MeshRun} {xs : List PeerId} {p : PeerId}

theorem peers_grafts (topic : Topic) (run : MeshRun) (xs : List PeerId) :
    (xs.foldl (graftPeer topic) run).peers = xs.foldl OrdSet.add run.peers := by
  induction xs generalizing run with
  | nil => rfl
  | cons x xs ih => exact ih (graftPeer topic run x)

theorem outboundCount_grafts (topic : Topic) (hxs : xs.Nodup) (hnew : ∀ x ∈ xs, ¬ x ∈ run.peers)
    (hout : ∀ x ∈ xs, t.router.outbound x = true) :
    outboundCount t (xs.foldl (graftPeer topic) run).peers.toList =
      outboundCount t run.peers.toList + xs.length := by
  rw [peers_grafts, OrdSet.foldl_add_toList hxs hnew, outboundCount, List.countP_append,
    List.countP_eq_length.mpr hout]
  rfl

theorem length_grafts (topic : Topic) (run : MeshRun) (xs : List PeerId) :
    (xs.foldl (graftPeer topic) run).control.grafts.length =
      run.control.grafts.length + xs.length := by
  induction xs generalizing run with
  | nil => rfl
  | cons x xs ih =>
    rw [List.foldl_cons, ih]
    simp only [graftPeer, List.length_append, List.length_cons, List.length_nil]
    omega

/-- A heartbeat that finds other shuffles. -/
def Tick.shuffled (t : Tick S) (shuffles : Shuffles) : Tick S := { t with shuffles := shuffles }

end

section

variable {S : Type} [LinearOrder S] [Zero S] {t : Tick S} {topic : Topic} {run : MeshRun}
  {p : PeerId}

structure ToppedUp (t : Tick S) (topic : Topic) (run run' : MeshRun) : Prop where
  outbound : ∀ p, p ∈ run'.peers → ¬ p ∈ run.peers → t.router.outbound p = true
  quota : t.opts.Dout ≤ outboundCount t run'.peers.toList ∨
    ∀ p, Eligible t topic run p → t.router.outbound p = true → p ∈ run'.peers

theorem topUpOutbound_eq (topic : Topic) (hlo : t.opts.Dlo ≤ run.peers.size)
    (hfew : outboundCount t run.peers.toList < t.opts.Dout) :
    topUpOutbound t topic run =
      (relayPeers t topic .topUp ((t.opts.Dout : Int) - outboundCount t run.peers.toList)
        (graftable t topic run)).toList.foldl (graftPeer topic) run := by
  unfold topUpOutbound
  rw [if_pos hlo]
  exact if_pos hfew

theorem toppedUp_of_outbound (hlo : t.opts.Dlo ≤ run.peers.size)
    (hfew : outboundCount t run.peers.toList < t.opts.Dout)
    (h : ∀ p, Eligible t topic run p → ¬ p ∈ run.peers → t.router.outbound p = true) :
    ToppedUp t topic run (topUpOutbound t topic run) := by
  rw [topUpOutbound_eq topic hlo hfew]
  generalize hcount : (t.opts.Dout : Int) - outboundCount t run.peers.toList = count
  have hpos : 0 < count := by omega
  have hnew : ∀ x ∈ (relayPeers t topic .topUp count (graftable t topic run)).toList,
      ¬ x ∈ run.peers := fun x hx => (fit_of_mem_relayPeers hx).2.1
  have hout : ∀ x ∈ (relayPeers t topic .topUp count (graftable t topic run)).toList,
      t.router.outbound x = true := by
    intro x hx
    obtain ⟨hfit, hmem, hscore⟩ := fit_of_mem_relayPeers hx
    exact h x ⟨hfit, hscore⟩ hmem
  constructor
  · intro p hp hmem
    exact hout p ((mem_grafts.mp hp).resolve_right hmem)
  · have hsum := outboundCount_grafts topic
      (relayPeers t topic .topUp count (graftable t topic run)).nodup hnew hout
    by_cases hfull : ((relayPeers t topic .topUp count (graftable t topic run)).size : Int) < count
    · exact .inr fun p hp _ => mem_grafts_of_lt hfull hp
    · refine .inl ?_
      unfold OrdSet.size at hfull
      omega

/-- Whoever could be grafted and is not outbound, some shuffle brings to the front. -/
theorem topUpOutbound_iff (hlo : t.opts.Dlo ≤ run.peers.size)
    (hfew : outboundCount t run.peers.toList < t.opts.Dout) :
    (∀ shuffles, ToppedUp (t.shuffled shuffles) topic run
        (topUpOutbound (t.shuffled shuffles) topic run)) ↔
      ∀ p, Eligible t topic run p → ¬ p ∈ run.peers → t.router.outbound p = true := by
  constructor
  · intro h p hp hmem
    refine (h (.favouring p)).outbound p ?_ hmem
    rw [topUpOutbound_eq (t := t.shuffled (.favouring p)) topic hlo hfew]
    exact mem_grafts.mpr (.inl (mem_getRelayPeers_favouring .topUp _ hp.1.relay
      ((graftable_iff hp.1.relay).mpr ⟨hp.1, hmem, hp.2⟩)))
  · intro h shuffles
    exact toppedUp_of_outbound hlo hfew fun p hp =>
      h p ⟨⟨hp.1.relay, hp.1.indirect, hp.1.entry⟩, hp.2⟩

end

section

variable {S : Type} [LinearOrder S] {t : Tick S} {topic : Topic} {run : MeshRun} {p : PeerId}

/-! ## Improving a mesh of low scores -/

/-- `getScore` at place `floor(size / 2)` of the members in ascending order. -/
def lowMedian (t : Tick S) (peers : OrdSet PeerId) : S :=
  t.score (sortAscending t peers.toList)[peers.size / 2]?

/-- What the last stage is to select: peers from outside that score above the median. -/
def improving (t : Tick S) (topic : Topic) (run : MeshRun) (id : PeerId) : Bool :=
  !run.peers.has id && !t.router.direct.has id && (run.control.backoff topic id).isNone &&
    decide (lowMedian t run.peers < t.score (some id))

def improvers (t : Tick S) (topic : Topic) (run : MeshRun) : List PeerId :=
  candidates t.router topic (improving t topic run)

theorem improving_iff (hrelay : RelayPeer t.router topic p) : improving t topic run p = true ↔
    ¬ p ∈ run.peers ∧ Fit t topic run p ∧ lowMedian t run.peers < t.score (some p) := by
  rw [fit_iff hrelay]
  simp [improving, OrdSet.has, and_assoc]

theorem mem_improvers : p ∈ improvers t topic run ↔
    ¬ p ∈ run.peers ∧ Fit t topic run p ∧ lowMedian t run.peers < t.score (some p) := by
  rw [improvers, mem_candidates]
  constructor
  · rintro ⟨hrelay, himproving⟩
    exact (improving_iff hrelay).mp himproving
  · intro h
    exact ⟨h.2.1.relay, (improving_iff h.2.1.relay).mpr h⟩

/-- The mesh the last stage is to leave: peers that improve it are added when the median is low, and
otherwise nobody is grafted. -/
structure Improved (t : Tick S) (topic : Topic) (run run' : MeshRun) : Prop where
  low : lowMedian t run.peers < t.opts.scoreThresholds.opportunisticGraftThreshold →
    ∃ added : List PeerId, added.Nodup ∧
      added.length = min relayOpportunisticGraftPeers (improvers t topic run).length ∧
      (∀ p ∈ added, p ∈ improvers t topic run) ∧
      ∀ p, p ∈ run'.peers ↔ p ∈ run.peers ∨ p ∈ added
  otherwise : t.opts.scoreThresholds.opportunisticGraftThreshold ≤ lowMedian t run.peers → run' = run

/-- The stage never adds anyone. -/
theorem opportunisticGraft_low_iff (t : Tick S) (topic : Topic) (run : MeshRun) :
    (∃ added : List PeerId, added.Nodup ∧
      added.length = min relayOpportunisticGraftPeers (improvers t topic run).length ∧
      (∀ p ∈ added, p ∈ improvers t topic run) ∧
      ∀ p, p ∈ (opportunisticGraft t topic run).peers ↔ p ∈ run.peers ∨ p ∈ added) ↔
      improvers t topic run = [] := by
  rw [opportunisticGraft_peers]
  constructor
  · rintro ⟨added, _, hlength, hadded, hmem⟩
    cases added with
    | nil =>
      rw [List.length_nil, relayOpportunisticGraftPeers] at hlength
      exact List.length_eq_zero_iff.mp (by omega)
    | cons x xs =>
      have hnew := (mem_improvers.mp (hadded x List.mem_cons_self)).1
      exact absurd ((hmem x).mpr (.inr List.mem_cons_self)) hnew
  · intro hnone
    refine ⟨[], List.nodup_nil, ?_, ?_, ?_⟩
    · rw [hnone]
      rfl
    · intro p hp
      cases hp
    · intro p
      simp

theorem opportunisticGraft_eq_self_iff (t : Tick S) (topic : Topic) (run : MeshRun) :
    opportunisticGraft t topic run = run ↔ ¬ Regrafts t topic run := by
  rcases opportunisticGraft_cases t topic run with ⟨heq, hno⟩ | ⟨hyes, xs, hne, _, heq⟩
  · exact ⟨fun _ => hno, fun _ => heq⟩
  · refine ⟨fun hsame => ?_, fun hno => absurd hyes hno⟩
    have hlength := length_grafts topic run xs
    rw [← heq, hsame] at hlength
    exact absurd (List.length_eq_zero_iff.mp (by omega)) hne

theorem medianScore_even (h : run.peers.size % 2 = 0) :
    medianScore t run.peers = lowMedian t run.peers := by
  rw [medianScore, if_pos h]
  rfl

end

section

variable {S : Type} [LinearOrder S] [Zero S] {t : Tick S} {topic : Topic} {run : MeshRun}
  {p : PeerId}

theorem medianScore_odd (hzero : t.score none = 0) (h : ¬ run.peers.size % 2 = 0) :
    medianScore t run.peers = 0 := by
  rw [medianScore, if_neg h, hzero]

/-- A high median stops the stage, unless the mesh is odd: then the median it reads is 0. -/
theorem not_regrafts_iff (htick : t.router.heartbeatTicks % relayOpportunisticGraftTicks = 0)
    (hsize : 1 < run.peers.size) (hzero : t.score none = 0)
    (hhigh : t.opts.scoreThresholds.opportunisticGraftThreshold ≤ lowMedian t run.peers) :
    ¬ Regrafts t topic run ↔ run.peers.size % 2 = 0 ∨
      t.opts.scoreThresholds.opportunisticGraftThreshold ≤ 0 ∨
      ∀ p, p ∈ run.peers → Fit t topic run p → t.score (some p) ≤ 0 := by
  by_cases heven : run.peers.size % 2 = 0
  · refine ⟨fun _ => .inl heven, fun _ h => ?_⟩
    have hmedian := h.median
    rw [medianScore_even heven] at hmedian
    exact absurd hmedian (not_lt.mpr hhigh)
  · have hmedian := medianScore_odd hzero heven
    constructor
    · intro hno
      refine .inr ?_
      by_contra hboth
      obtain ⟨hthreshold, hmember⟩ := not_or.mp hboth
      simp only [not_forall, not_le] at hthreshold hmember
      obtain ⟨p, hp, hfit, hscore⟩ := hmember
      exact hno ⟨htick, hsize, by rw [hmedian]; exact hthreshold,
        p, hp, hfit, by rw [hmedian]; exact hscore⟩
    · rintro (h | h | h) hyes
      · exact heven h
      · have hlt := hyes.median
        rw [hmedian] at hlt
        exact absurd hlt (not_lt.mpr h)
      · obtain ⟨p, hp, hfit, hscore⟩ := hyes.member
        rw [hmedian] at hscore
        exact absurd hscore (not_lt.mpr (h p hp hfit))

theorem opportunisticGraft_improves_iff
    (htick : t.router.heartbeatTicks % relayOpportunisticGraftTicks = 0)
    (hsize : 1 < run.peers.size) (hzero : t.score none = 0) :
    Improved t topic run (opportunisticGraft t topic run) ↔
      (lowMedian t run.peers < t.opts.scoreThresholds.opportunisticGraftThreshold →
        improvers t topic run = []) ∧
      (t.opts.scoreThresholds.opportunisticGraftThreshold ≤ lowMedian t run.peers →
        run.peers.size % 2 = 0 ∨ t.opts.scoreThresholds.opportunisticGraftThreshold ≤ 0 ∨
          ∀ p, p ∈ run.peers → Fit t topic run p → t.score (some p) ≤ 0) := by
  constructor
  · intro h
    constructor
    · intro hlow
      exact (opportunisticGraft_low_iff t topic run).mp (h.low hlow)
    · intro hhigh
      exact (not_regrafts_iff htick hsize hzero hhigh).mp
        ((opportunisticGraft_eq_self_iff t topic run).mp (h.otherwise hhigh))
  · rintro ⟨hlow, hhigh⟩
    constructor
    · intro h
      exact (opportunisticGraft_low_iff t topic run).mpr (hlow h)
    · intro h
      exact (opportunisticGraft_eq_self_iff t topic run).mpr
        ((not_regrafts_iff htick hsize hzero h).mpr (hhigh h))

end

namespace Overlooked

def members : OrdSet PeerId := .ofList ["a", "b", "c", "d"]

def subscribers : OrdSet PeerId := .ofList ["a", "b", "c", "d", "e"]

/-- Four members, none of them outbound, on the tick of the last stage. -/
def router : Router Int where
  options := ⟨6, 4, 12, 4, 2, ⟨-50, 20⟩⟩
  peers id := if subscribers.has id then some "/vac/waku/relay/2.0.0" else none
  topics topic := if topic = "news" then some subscribers else none
  direct := .empty
  outbound _ := false
  backoff _ _ := none
  mesh := ⟨[("news", members)], by decide⟩
  fanout := .empty
  lastpub := .empty
  heartbeatTicks := 60
  started := true

/-- The one outside scores better than all of them. -/
def tick : Tick Int where
  router := router
  gossipsub := .standard
  shuffles := .identity
  score id := if id = some "e" then 30 else 0
  now := 0

def start : MeshRun := ⟨members, tick.start⟩

/-- Outbound after all. -/
def dialled : Tick Int := { tick with router := { router with outbound := fun id => id = "e" } }

/-- No better than the members. -/
def equal : Tick Int := { tick with score := fun _ => 0 }

end Overlooked

theorem topUpOutbound_iff_overlooked :
    ((∀ shuffles, ToppedUp (Overlooked.tick.shuffled shuffles) "news" Overlooked.start
        (topUpOutbound (Overlooked.tick.shuffled shuffles) "news" Overlooked.start)) ↔
      ∀ p, Eligible Overlooked.tick "news" Overlooked.start p → ¬ p ∈ Overlooked.start.peers →
        Overlooked.tick.router.outbound p = true) ∧
      ∀ shuffles, ToppedUp (Overlooked.dialled.shuffled shuffles) "news" Overlooked.start
        (topUpOutbound (Overlooked.dialled.shuffled shuffles) "news" Overlooked.start) := by
  refine ⟨topUpOutbound_iff (by decide) (by decide), (topUpOutbound_iff (by decide) (by decide)).mpr
    fun p heligible hout => ?_⟩
  have hmem : p ∈ Overlooked.subscribers.toList := OrdSet.has_iff.mp heligible.1.relay.1
  have hall : ∀ p ∈ Overlooked.subscribers.toList, ¬ p ∈ Overlooked.start.peers →
      Overlooked.dialled.router.outbound p = true := by decide
  exact hall p hmem hout

/-- The quota is missing two outbound members, and the stage grafts one who is not. -/
theorem overlooked_top_up_inbound :
    Overlooked.tick.opts.Dlo ≤ Overlooked.start.peers.size ∧
      outboundCount Overlooked.tick Overlooked.start.peers.toList < Overlooked.tick.opts.Dout ∧
      ¬ ToppedUp Overlooked.tick "news" Overlooked.start
        (topUpOutbound Overlooked.tick "news" Overlooked.start) := by
  refine ⟨by decide, by decide, fun h => ?_⟩
  exact absurd (h.outbound "e" (by decide) (by decide)) (by decide)

theorem opportunisticGraft_improves_overlooked :
    (Improved Overlooked.tick "news" Overlooked.start
        (opportunisticGraft Overlooked.tick "news" Overlooked.start) ↔
      (lowMedian Overlooked.tick Overlooked.start.peers <
          Overlooked.tick.opts.scoreThresholds.opportunisticGraftThreshold →
        improvers Overlooked.tick "news" Overlooked.start = []) ∧
      (Overlooked.tick.opts.scoreThresholds.opportunisticGraftThreshold ≤
          lowMedian Overlooked.tick Overlooked.start.peers →
        Overlooked.start.peers.size % 2 = 0 ∨
          Overlooked.tick.opts.scoreThresholds.opportunisticGraftThreshold ≤ 0 ∨
          ∀ p, p ∈ Overlooked.start.peers → Fit Overlooked.tick "news" Overlooked.start p →
            Overlooked.tick.score (some p) ≤ 0)) ∧
      Improved Overlooked.equal "news" Overlooked.start
        (opportunisticGraft Overlooked.equal "news" Overlooked.start) := by
  refine ⟨opportunisticGraft_improves_iff (by decide) (by decide) (by decide),
    (opportunisticGraft_improves_iff (by decide) (by decide) (by decide)).mpr ⟨fun _ => ?_, ?_⟩⟩
  · decide
  · intro hhigh
    exact absurd hhigh (by decide)

/-- The median is low and somebody better is there, but nobody is added. -/
theorem overlooked_stays_out :
    Overlooked.tick.router.heartbeatTicks % relayOpportunisticGraftTicks = 0 ∧
      1 < Overlooked.start.peers.size ∧ Overlooked.tick.score none = 0 ∧
      ¬ Improved Overlooked.tick "news" Overlooked.start
        (opportunisticGraft Overlooked.tick "news" Overlooked.start) := by
  refine ⟨by decide, by decide, by decide, fun h => ?_⟩
  have hnone := (opportunisticGraft_low_iff Overlooked.tick "news" Overlooked.start).mp
    (h.low (by decide))
  exact absurd hnone (by decide)

end Relay
end JsWaku
