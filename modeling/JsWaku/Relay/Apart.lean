import JsWaku.Relay.Agreement

/-!
# JsWaku.Relay.Apart

The topics of a node do not get in each other's way.

* `AgreeOn`  — two routers have the same on one topic, and the same peers and options.
* `Event.on` — what an event is to one topic, if it is anything.
* `SameTo` — and has told everybody the same about it.
* `topics_apart` — two runs that are the same to a topic leave the node so, and messages on it go to
  the same peers.
-/

namespace JsWaku
namespace Relay

open Js Trace

/-- Backoffs are kept for each topic and peer apart. -/
structure Gossipsub.Local (gossipsub : Gossipsub) : Prop where
  add : ∀ now b b' id topic, b topic = b' topic →
    gossipsub.addBackoff now b id topic topic = gossipsub.addBackoff now b' id topic topic
  clear : ∀ now ticks b b' topic, b topic = b' topic →
    gossipsub.clearBackoff now ticks b topic = gossipsub.clearBackoff now ticks b' topic

theorem standard_local : Gossipsub.standard.Local where
  add now b b' id topic h := by
    funext p
    simp only [Gossipsub.standard, h]
  clear now ticks b b' topic h := by
    funext p
    simp only [Gossipsub.standard, h]

structure AgreeOn {S : Type} (topic : Topic) (r r' : Router S) : Prop where
  options : r.options = r'.options
  peers : r.peers = r'.peers
  direct : r.direct = r'.direct
  outbound : r.outbound = r'.outbound
  heartbeatTicks : r.heartbeatTicks = r'.heartbeatTicks
  started : r.started = r'.started
  topics : r.topics topic = r'.topics topic
  backoff : r.backoff topic = r'.backoff topic
  mesh : r.mesh.get topic = r'.mesh.get topic
  fanout : r.fanout.get topic = r'.fanout.get topic
  lastpub : r.lastpub.get topic = r'.lastpub.get topic

section

variable {S : Type} {topic : Topic} {r r' r'' : Router S}

theorem AgreeOn.refl (topic : Topic) (r : Router S) : AgreeOn topic r r :=
  ⟨rfl, rfl, rfl, rfl, rfl, rfl, rfl, rfl, rfl, rfl, rfl⟩

theorem AgreeOn.symm (h : AgreeOn topic r r') : AgreeOn topic r' r :=
  ⟨h.options.symm, h.peers.symm, h.direct.symm, h.outbound.symm, h.heartbeatTicks.symm,
    h.started.symm, h.topics.symm, h.backoff.symm, h.mesh.symm, h.fanout.symm, h.lastpub.symm⟩

theorem AgreeOn.trans (h : AgreeOn topic r r') (h' : AgreeOn topic r' r'') : AgreeOn topic r r'' :=
  ⟨h.options.trans h'.options, h.peers.trans h'.peers, h.direct.trans h'.direct,
    h.outbound.trans h'.outbound, h.heartbeatTicks.trans h'.heartbeatTicks,
    h.started.trans h'.started, h.topics.trans h'.topics, h.backoff.trans h'.backoff,
    h.mesh.trans h'.mesh, h.fanout.trans h'.fanout, h.lastpub.trans h'.lastpub⟩

/-- The same peers go, and go out of the same sets. -/
theorem agreeOn_change (h : AgreeOn topic r r') {peers : PeerId → Option String}
    {topics : Topic → Option (OrdSet PeerId)} {outbound : PeerId → Bool} :
    AgreeOn topic (r.change peers topics outbound)
      (r'.change peers (fun t => if t = topic then topics t else none) outbound) := by
  have hloses : r.loses peers = r'.loses peers := by
    funext id
    rw [Router.loses, Router.loses, h.peers]
  have hmesh : (r.change peers topics outbound).mesh.get topic =
      (r'.change peers (fun t => if t = topic then topics t else none) outbound).mesh.get topic := by
    rw [Router.change, Router.change, OrdMap.get_mapValues, OrdMap.get_mapValues, h.mesh, hloses]
  have hfanout : (r.change peers topics outbound).fanout.get topic =
      (r'.change peers (fun t => if t = topic then topics t else none) outbound).fanout.get topic := by
    rw [Router.change, Router.change, OrdMap.get_mapValues, OrdMap.get_mapValues, h.fanout, hloses]
  exact ⟨h.options, rfl, h.direct, rfl, h.heartbeatTicks, h.started, (if_pos rfl).symm, h.backoff,
    hmesh, hfanout, h.lastpub⟩

theorem AgreeOn.withMaps (h : AgreeOn topic r r')
    {mesh mesh' fanout fanout' : OrdMap Topic (OrdSet PeerId)}
    {lastpub lastpub' : OrdMap Topic Time} (hmesh : mesh.get topic = mesh'.get topic)
    (hfanout : fanout.get topic = fanout'.get topic)
    (hlastpub : lastpub.get topic = lastpub'.get topic) :
    AgreeOn topic { r with mesh := mesh, fanout := fanout, lastpub := lastpub }
      { r' with mesh := mesh', fanout := fanout', lastpub := lastpub' } :=
  ⟨h.options, h.peers, h.direct, h.outbound, h.heartbeatTicks, h.started, h.topics, h.backoff,
    hmesh, hfanout, hlastpub⟩

theorem AgreeOn.candidates (h : AgreeOn topic r r') (filter : PeerId → Bool) :
    candidates r topic filter = candidates r' topic filter := by
  simp only [Relay.candidates, h.topics, Router.speaksRelay, h.peers]

theorem AgreeOn.getRelayPeers (h : AgreeOn topic r r') (shuffle : List PeerId → List PeerId)
    (count : Int) (filter : PeerId → Bool) :
    getRelayPeers r shuffle topic count filter = getRelayPeers r' shuffle topic count filter := by
  rw [Relay.getRelayPeers, h.candidates, Relay.getRelayPeers]

end

/-- As far as backoffs and lists go, the topic is the same in both. -/
structure Twin (topic : Topic) (run run' : MeshRun) : Prop where
  peers : run.peers = run'.peers
  backoff : run.control.backoff topic = run'.control.backoff topic
  grafted : ∀ p, (run.control.toGraft p).count topic = (run'.control.toGraft p).count topic
  pruned : ∀ p, (run.control.toPrune p).count topic = (run'.control.toPrune p).count topic

section

variable {S : Type} {t : Tick S} {topic : Topic} {run run' : MeshRun} {xs : List PeerId}

theorem Twin.alike (h : Twin topic run run') : Alike topic run run' :=
  ⟨h.peers, fun p => by rw [h.backoff]⟩

theorem Twin.withNoPX (h : Twin topic run run') (noPX noPX' : PeerId → Bool) :
    Twin topic (run.withNoPX noPX) (run'.withNoPX noPX') :=
  ⟨h.peers, h.backoff, h.grafted, h.pruned⟩

theorem count_push {m m' : PeerId → List Topic} {p : PeerId}
    (h : (m p).count topic = (m' p).count topic) (id : PeerId) :
    (push m id topic p).count topic = (push m' id topic p).count topic := by
  unfold push
  split
  · rw [List.count_append, List.count_append, h]
  · exact h

theorem Twin.prunePeer (hlocal : t.gossipsub.Local) (h : Twin topic run run') (id : PeerId) :
    Twin topic (prunePeer t topic run id) (prunePeer t topic run' id) where
  peers := congrArg (·.delete id) h.peers
  backoff := hlocal.add _ _ _ _ _ h.backoff
  grafted := h.grafted
  pruned p := count_push (h.pruned p) id

theorem Twin.graftPeer (h : Twin topic run run') (id : PeerId) :
    Twin topic (graftPeer topic run id) (graftPeer topic run' id) where
  peers := congrArg (·.add id) h.peers
  backoff := h.backoff
  grafted p := count_push (h.grafted p) id
  pruned := h.pruned

theorem Twin.prunes (hlocal : t.gossipsub.Local) (h : Twin topic run run') :
    Twin topic (xs.foldl (Relay.prunePeer t topic) run)
      (xs.foldl (Relay.prunePeer t topic) run') := by
  induction xs generalizing run run' with
  | nil => exact h
  | cons x xs ih => exact ih (h.prunePeer hlocal x)

theorem Twin.grafts (h : Twin topic run run') :
    Twin topic (xs.foldl (Relay.graftPeer topic) run) (xs.foldl (Relay.graftPeer topic) run') := by
  induction xs generalizing run run' with
  | nil => exact h
  | cons x xs ih => exact ih (h.graftPeer x)

variable [LinearOrder S]

theorem Twin.cutDown (hlocal : t.gossipsub.Local) (h : Twin topic run run') :
    Twin topic (cutDown t topic run) (cutDown t topic run') := by
  unfold Relay.cutDown
  rw [h.peers]
  split
  · exact h.prunes hlocal
  · exact h

theorem Twin.opportunisticGraft (h : Twin topic run run') :
    Twin topic (opportunisticGraft t topic run) (opportunisticGraft t topic run') := by
  have hfilter : ∀ median, opportune t topic run median = opportune t topic run' median := by
    intro median
    funext id
    simp only [opportune, h.peers, h.backoff]
  unfold Relay.opportunisticGraft
  rw [h.peers]
  split
  · simp only [hfilter]
    split
    · exact h.grafts
    · exact h
  · exact h

variable [Zero S]

theorem Twin.dropNegative (hlocal : t.gossipsub.Local) (h : Twin topic run run') :
    Twin topic (dropNegative t topic run) (dropNegative t topic run') := by
  obtain ⟨noPX, heq⟩ := dropNegative_eq t topic run
  obtain ⟨noPX', heq'⟩ := dropNegative_eq t topic run'
  rw [heq, heq', h.peers]
  exact (h.prunes hlocal).withNoPX noPX noPX'

theorem Twin.fillUp (h : Twin topic run run') :
    Twin topic (fillUp t topic run) (fillUp t topic run') := by
  unfold Relay.fillUp
  rw [h.peers, h.alike.graftable]
  split
  · exact h.grafts
  · exact h

theorem Twin.topUpOutbound (h : Twin topic run run') :
    Twin topic (topUpOutbound t topic run) (topUpOutbound t topic run') := by
  unfold Relay.topUpOutbound
  rw [h.peers, h.alike.graftable]
  split
  · simp only
    split
    · exact h.grafts
    · exact h
  · exact h

theorem Twin.maintainTopic (hlocal : t.gossipsub.Local) (h : Twin topic run run') :
    Twin topic (maintainTopic t topic run) (maintainTopic t topic run') :=
  ((h.dropNegative hlocal).fillUp.cutDown hlocal).topUpOutbound.opportunisticGraft

end

section

variable {S : Type} {t : Tick S} {topic : Topic}

/-- All that the round on one topic reads. -/
def Tick.alone (t : Tick S) (topic : Topic) : Tick S :=
  { t with router := { t.router with
      topics := fun _ => t.router.topics topic
      backoff := fun _ => t.router.backoff topic
      mesh := .empty
      fanout := .empty
      lastpub := .empty } }

theorem bubbleUp_alone (steps i need : Nat) (peersArray : List PeerId) :
    bubbleUp (t.alone topic) steps i need peersArray = bubbleUp t steps i need peersArray := by
  induction steps generalizing i need peersArray with
  | zero => rfl
  | succ steps ih =>
    simp only [bubbleUp, ih]
    rfl

variable {gossipsub : Gossipsub} {env : Surroundings S} {r r' : Router S}

theorem tickOf_alone (hlocal : gossipsub.Local) (h : AgreeOn topic r r') :
    (tickOf gossipsub env r).alone topic = (tickOf gossipsub env r').alone topic := by
  have hclear := hlocal.clear env.now (r.heartbeatTicks + 1) _ _ topic h.backoff
  rw [h.heartbeatTicks] at hclear
  simp only [Tick.alone, tickOf, h.heartbeatTicks, hclear, h.options, h.peers, h.direct, h.outbound,
    h.started, h.topics]

variable [LinearOrder S]

theorem cutDown_alone (run : MeshRun) :
    cutDown (t.alone topic) topic run = cutDown t topic run := by
  unfold cutDown cutOrder
  simp only [bubbleUp_alone]
  rfl

theorem fanoutRound_alone (f : OrdSet PeerId) :
    fanoutRound (t.alone topic) topic f = fanoutRound t topic f := rfl

variable [Zero S]

theorem maintainTopic_alone (run : MeshRun) :
    maintainTopic (t.alone topic) topic run = maintainTopic t topic run := by
  unfold maintainTopic maintainDegree
  rw [cutDown_alone]
  rfl

/-- The mesh of the topic and what goes with it, after the heartbeats of both. -/
theorem twin_heartbeat (hlocal : gossipsub.Local) (h : AgreeOn topic r r') :
    (heartbeat gossipsub env r).router.mesh.get topic =
      (heartbeat gossipsub env r').router.mesh.get topic ∧
    (heartbeat gossipsub env r).router.backoff topic =
      (heartbeat gossipsub env r').router.backoff topic ∧
    ∀ p, ((heartbeat gossipsub env r).toGraft p).count topic =
        ((heartbeat gossipsub env r').toGraft p).count topic ∧
      ((heartbeat gossipsub env r).toPrune p).count topic =
        ((heartbeat gossipsub env r').toPrune p).count topic := by
  have hstart : ∀ M, Twin topic ⟨M, (tickOf gossipsub env r).start⟩
      ⟨M, (tickOf gossipsub env r').start⟩ := by
    intro M
    have hclear := hlocal.clear env.now (r.heartbeatTicks + 1) _ _ topic h.backoff
    refine ⟨rfl, ?_, fun _ => rfl, fun _ => rfl⟩
    show gossipsub.clearBackoff env.now (r.heartbeatTicks + 1) r.backoff topic =
      gossipsub.clearBackoff env.now (r'.heartbeatTicks + 1) r'.backoff topic
    rw [hclear, h.heartbeatTicks]
  have hsame : ∀ {c c' d d' : Control} {M : OrdSet PeerId}, Undisturbed topic c d →
      Undisturbed topic c' d' → Twin topic ⟨M, c⟩ ⟨M, c'⟩ → Twin topic ⟨M, d⟩ ⟨M, d'⟩ := by
    intro c c' d d' M hu hu' htwin
    refine ⟨rfl, ?_, fun p => ?_, fun p => ?_⟩
    · funext p
      exact (hu.backoff p).trans ((congrFun htwin.backoff p).trans (hu'.backoff p).symm)
    · exact (hu.grafted p).trans ((htwin.grafted p).trans (hu'.grafted p).symm)
    · exact (hu.pruned p).trans ((htwin.pruned p).trans (hu'.pruned p).symm)
  cases hM : r.mesh.get topic with
  | none =>
    have hM' : r'.mesh.get topic = none := by rw [← h.mesh, hM]
    obtain ⟨hnone, hquiet⟩ := heartbeat_other gossipsub env hM
    obtain ⟨hnone', hquiet'⟩ := heartbeat_other gossipsub env hM'
    have htwin := hsame hquiet hquiet' (hstart .empty)
    exact ⟨hnone.trans hnone'.symm, htwin.backoff, fun p => ⟨htwin.grafted p, htwin.pruned p⟩⟩
  | some M =>
    have hM' : r'.mesh.get topic = some M := by rw [← h.mesh, hM]
    obtain ⟨c, hbefore, hmesh, hafter⟩ := heartbeat_round gossipsub env hM
    obtain ⟨c', hbefore', hmesh', hafter'⟩ := heartbeat_round gossipsub env hM'
    have hround : Twin topic (maintainTopic (tickOf gossipsub env r) topic ⟨M, c⟩)
        (maintainTopic (tickOf gossipsub env r') topic ⟨M, c'⟩) := by
      have hleft : maintainTopic ((tickOf gossipsub env r).alone topic) topic ⟨M, c⟩ = _ :=
        maintainTopic_alone _
      have hright : maintainTopic ((tickOf gossipsub env r').alone topic) topic ⟨M, c'⟩ = _ :=
        maintainTopic_alone _
      rw [← tickOf_alone hlocal h] at hright
      rw [← hleft, ← hright]
      exact Twin.maintainTopic hlocal (hsame hbefore hbefore' (hstart M))
    have htwin := hsame hafter hafter' (M := .empty)
      ⟨rfl, hround.backoff, hround.grafted, hround.pruned⟩
    rw [hmesh, hmesh', hround.peers]
    exact ⟨rfl, htwin.backoff, fun p => ⟨htwin.grafted p, htwin.pruned p⟩⟩

theorem agreeOn_heartbeat (hlocal : gossipsub.Local) (h : AgreeOn topic r r') :
    AgreeOn topic (heartbeat gossipsub env r).router (heartbeat gossipsub env r').router := by
  obtain ⟨hmesh, hbackoff, _⟩ := @twin_heartbeat S topic gossipsub env r r' _ _ hlocal h
  have hround : fanoutRound (tickOf gossipsub env r) topic =
      fanoutRound (tickOf gossipsub env r') topic := by
    funext f
    have hleft : fanoutRound ((tickOf gossipsub env r).alone topic) topic f = _ :=
      fanoutRound_alone f
    rw [tickOf_alone hlocal h] at hleft
    exact hleft.symm
  refine ⟨h.options, h.peers, h.direct, h.outbound, congrArg (· + 1) h.heartbeatTicks, h.started,
    h.topics, hbackoff, hmesh, ?_, ?_⟩
  · rw [heartbeat_fanout, heartbeat_fanout, h.fanout, hround, Stale, Stale, h.lastpub]
    rfl
  · rw [heartbeat_lastpub, heartbeat_lastpub, h.lastpub]
    rfl

end

/-! ## What an event is to a topic -/

section

variable {S : Type}

/-- Heartbeats and changes of the peers are everybody's. -/
def Event.on (topic : Topic) : Event S → Option (Event S)
  | .heartbeat env => some (.heartbeat env)
  | .join env topic' => if topic' = topic then some (.join env topic') else none
  | .publish env msg =>
    if topic ∈ msg.topicIDs then some (.publish env { msg with topicIDs := [topic] }) else none
  | .change peers topics outbound =>
    some (.change peers (fun t => if t = topic then topics t else none) outbound)

def ControlMessage.topic : ControlMessage → Topic
  | .graft _ topic => topic
  | .prune _ topic => topic

/-- What somebody was told about the topic. -/
def about (topic : Topic) (told : List ControlMessage) : List ControlMessage :=
  told.filter fun m => m.topic = topic

structure SameTo (topic : Topic) (s s' : Conversation S) : Prop where
  router : AgreeOn topic s.router s'.router
  told : ∀ id, about topic (s.told id) = about topic (s'.told id)

variable {topic t : Topic} {l l' : List Topic} {id : PeerId}

theorem about_append (told told' : List ControlMessage) :
    about topic (told ++ told') = about topic told ++ about topic told' := List.filter_append ..

theorem about_grafts :
    about topic (l.map (.graft id)) = .replicate (l.count topic) (.graft id topic) := by
  rw [about, List.filter_map, ← List.map_replicate, ← List.filter_eq]
  rfl

theorem about_prunes :
    about topic (l.map (.prune id)) = .replicate (l.count topic) (.prune id topic) := by
  rw [about, List.filter_map, ← List.map_replicate, ← List.filter_eq]
  rfl

end

section

variable {S : Type} {env : Surroundings S} {r r' : Router S} {topic : Topic}

theorem AgreeOn.known (h : AgreeOn topic r r') : Known r topic ↔ Known r' topic := by
  rw [Known, Known, h.topics]

theorem AgreeOn.fans (h : AgreeOn topic r r') {topicIDs : List Topic} (hin : topic ∈ topicIDs) :
    Fans r topicIDs topic ↔ Fans r' [topic] topic := by
  simp only [Fans, Meshless, h.known, h.mesh, hin, List.mem_singleton]

variable [LinearOrder S]

theorem AgreeOn.publishPeers (h : AgreeOn topic r r') :
    publishPeers env topic r = publishPeers env topic r' := by
  unfold Relay.publishPeers
  rw [h.getRelayPeers, h.options]
  congr 1
  funext id
  rw [Router.publishable, Router.publishable, h.options]

theorem AgreeOn.fanoutFor (h : AgreeOn topic r r') :
    fanoutFor env topic r = fanoutFor env topic r' := by
  unfold Relay.fanoutFor
  rw [h.fanout, h.publishPeers]

theorem AgreeOn.targets (h : AgreeOn topic r r') : targets env topic r = targets env topic r' := by
  unfold Relay.targets
  rw [h.mesh, h.fanoutFor]

theorem agreeOn_publish (h : AgreeOn topic r r') {msg : InMessage} (hin : topic ∈ msg.topicIDs) :
    AgreeOn topic (publish env msg r).1 (publish env { msg with topicIDs := [topic] } r').1 := by
  have hleft := published_publish env msg r
  have hright := published_publish env { msg with topicIDs := [topic] } r'
  have hfanout := (hleft.fanout topic).trans ((if_congr (h.fans hin) h.fanoutFor h.fanout).trans
    (hright.fanout topic).symm)
  have hlastpub := (hleft.lastpub topic).trans ((if_congr (h.fans hin) rfl h.lastpub).trans
    (hright.lastpub topic).symm)
  rw [hleft.rest, hright.rest]
  exact h.withMaps h.mesh hfanout hlastpub

theorem agreeOn_publish_other {msg : InMessage} (hout : ¬ topic ∈ msg.topicIDs) (r : Router S) :
    AgreeOn topic (publish env msg r).1 r := by
  have hpublished := published_publish env msg r
  have hfans : ¬ Fans r msg.topicIDs topic := fun h => hout h.1
  have hfanout := (hpublished.fanout topic).trans (if_neg hfans)
  have hlastpub := (hpublished.lastpub topic).trans (if_neg hfans)
  rw [hpublished.rest]
  exact (AgreeOn.refl topic r).withMaps rfl hfanout hlastpub

theorem mem_publish_congr (h : AgreeOn topic r r') {msg : InMessage}
    (hone : msg.topicIDs = [topic]) {id : PeerId} :
    id ∈ (publish env msg r).2 ↔ id ∈ (publish env msg r').2 := by
  simp only [mem_publish, hone, List.mem_singleton, exists_eq_left, h.known, h.direct, h.targets]

variable [Zero S] {gossipsub : Gossipsub}

theorem AgreeOn.joinPeers (h : AgreeOn topic r r') :
    joinPeers env topic r = joinPeers env topic r' := by
  unfold Relay.joinPeers
  simp only [h.fanout, h.options, h.direct, h.getRelayPeers]

theorem agreeOn_join (h : AgreeOn topic r r') :
    AgreeOn topic (next gossipsub r (.join env topic)) (next gossipsub r' (.join env topic)) := by
  have hmesh : (r.mesh.set topic (joinPeers env topic r)).get topic =
      (r'.mesh.set topic (joinPeers env topic r')).get topic := by
    rw [OrdMap.get_set_self, OrdMap.get_set_self, h.joinPeers]
  have hgone : ∀ {α : Type} (m m' : OrdMap Topic α),
      (m.delete topic).get topic = (m'.delete topic).get topic := fun m m' =>
    (OrdMap.get_delete_self m topic).trans (OrdMap.get_delete_self m' topic).symm
  -- Both throw, or find a fanout set, or find none.
  rcases next_join_cases gossipsub env topic r with
    ⟨hs, heq⟩ | ⟨hs, ⟨f, hf⟩, heq⟩ | ⟨hs, hf, heq⟩ <;>
  rcases next_join_cases gossipsub env topic r' with
    ⟨hs', heq'⟩ | ⟨hs', ⟨f', hf'⟩, heq'⟩ | ⟨hs', hf', heq'⟩ <;>
  first
    | (rw [h.started, hs'] at hs; cases hs; done)
    | (rw [h.fanout, hf'] at hf; cases hf; done)
    | rw [heq, heq']
  · exact h
  · exact h.withMaps hmesh (hgone _ _) (hgone _ _)
  · exact h.withMaps hmesh h.fanout h.lastpub

theorem agreeOn_join_other {topic' : Topic} (hne : topic' ≠ topic) (r : Router S) :
    AgreeOn topic (next gossipsub r (.join env topic')) r := by
  have hmesh := OrdMap.get_set_of_ne hne r.mesh (joinPeers env topic' r)
  have hr := AgreeOn.refl topic r
  rcases next_join_cases gossipsub env topic' r with ⟨_, heq⟩ | ⟨_, _, heq⟩ | ⟨_, _, heq⟩
  · rwa [heq]
  · rw [heq]
    exact hr.withMaps hmesh (OrdMap.get_delete_of_ne hne _) (OrdMap.get_delete_of_ne hne _)
  · rw [heq]
    exact hr.withMaps hmesh rfl rfl

variable {id : PeerId}

theorem about_sends_heartbeat (hlocal : gossipsub.Local) (h : AgreeOn topic r r') :
    about topic (sends gossipsub r (.heartbeat env) id) =
      about topic (sends gossipsub r' (.heartbeat env) id) := by
  obtain ⟨_, _, hlists⟩ := @twin_heartbeat S topic gossipsub env r r' _ _ hlocal h
  obtain ⟨hgrafts, hprunes⟩ := hlists id
  simp only [sends, about_append, about_grafts, about_prunes, hgrafts, hprunes]

theorem sends_join_congr (h : AgreeOn topic r r') :
    sends gossipsub r (.join env topic) id = sends gossipsub r' (.join env topic) id := by
  by_cases hstarted : r.started = true
  · have hstarted' : r'.started = true := h.started ▸ hstarted
    rw [sends_join hstarted, sends_join hstarted', h.joinPeers]
  · have hstarted' : ¬ r'.started = true := h.started ▸ hstarted
    simp only [sends, join, if_neg hstarted, if_neg hstarted']

theorem about_sends_join_other {topic' : Topic} (hne : topic' ≠ topic) :
    about topic (sends gossipsub r (.join env topic') id) = [] := by
  by_cases hstarted : r.started = true
  · rw [sends_join hstarted, about_grafts]
    split <;> simp [hne]
  · simp only [sends, join, if_neg hstarted]
    rfl

variable {s s' : Conversation S} {e e' : Event S}

/-- An event of the topic, in full and by itself. -/
theorem sameTo_converse (hlocal : gossipsub.Local) (h : SameTo topic s s')
    (he : e.on topic = some e') :
    SameTo topic (converse gossipsub s e) (converse gossipsub s' e') := by
  have htold : ∀ id,
      about topic (sends gossipsub s.router e id) = about topic (sends gossipsub s'.router e' id) →
      about topic ((converse gossipsub s e).told id) =
        about topic ((converse gossipsub s' e').told id) := by
    intro id hsends
    simp only [converse, about_append, h.told id, hsends]
  cases e with
  | heartbeat env =>
    cases he
    exact ⟨agreeOn_heartbeat hlocal h.router,
      fun id => htold id (about_sends_heartbeat hlocal h.router)⟩
  | join env topic' =>
    rw [Event.on, Option.ite_none_right_eq_some] at he
    obtain ⟨rfl, he⟩ := he
    cases he
    exact ⟨agreeOn_join h.router,
      fun id => htold id (congrArg (about topic') (sends_join_congr h.router))⟩
  | publish env msg =>
    rw [Event.on, Option.ite_none_right_eq_some] at he
    obtain ⟨hin, he⟩ := he
    cases he
    exact ⟨agreeOn_publish h.router hin, fun id => htold id rfl⟩
  | change peers topics outbound =>
    cases he
    exact ⟨agreeOn_change h.router, fun id => htold id rfl⟩

/-- An event that is nothing to the topic. -/
theorem sameTo_other (h : SameTo topic s s') (he : e.on topic = none) :
    SameTo topic (converse gossipsub s e) s' := by
  have htold : ∀ id, about topic (sends gossipsub s.router e id) = [] →
      about topic ((converse gossipsub s e).told id) = about topic (s'.told id) := by
    intro id hsends
    rw [converse, about_append, hsends, List.append_nil, h.told id]
  cases e with
  | heartbeat env => cases he
  | join env topic' =>
    have hne : topic' ≠ topic := by
      rintro rfl
      rw [Event.on, if_pos rfl] at he
      cases he
    exact ⟨(agreeOn_join_other hne s.router).trans h.router,
      fun id => htold id (about_sends_join_other hne)⟩
  | publish env msg =>
    have hout : ¬ topic ∈ msg.topicIDs := by
      intro hin
      rw [Event.on, if_pos hin] at he
      cases he
    exact ⟨(agreeOn_publish_other hout s.router).trans h.router, fun id => htold id rfl⟩
  | change peers topics outbound => cases he

theorem sameTo_after (hlocal : gossipsub.Local) (h : SameTo topic s s') (events : List (Event S)) :
    SameTo topic (after (converse gossipsub) s events)
      (after (converse gossipsub) s' (events.filterMap (Event.on topic))) :=
  after_filterMap (fun _ _ _ _ h he => sameTo_converse hlocal h he)
    (fun _ _ _ h he => sameTo_other h he) h events

theorem topics_apart (hlocal : gossipsub.Local) (h : AgreeOn topic r r')
    {events events' : List (Event S)}
    (hon : events.filterMap (Event.on topic) = events'.filterMap (Event.on topic)) :
    SameTo topic (after (converse gossipsub) ⟨r, fun _ => []⟩ events)
        (after (converse gossipsub) ⟨r', fun _ => []⟩ events') ∧
      ∀ env (msg : InMessage), msg.topicIDs = [topic] → ∀ id,
        (id ∈ (publish env msg (after (converse gossipsub) ⟨r, fun _ => []⟩ events).router).2 ↔
          id ∈ (publish env msg
            (after (converse gossipsub) ⟨r', fun _ => []⟩ events').router).2) := by
  have hstart : SameTo topic (⟨r, fun _ => []⟩ : Conversation S) ⟨r', fun _ => []⟩ :=
    ⟨h, fun _ => rfl⟩
  have hstart' : SameTo topic (⟨r', fun _ => []⟩ : Conversation S) ⟨r', fun _ => []⟩ :=
    ⟨AgreeOn.refl topic r', fun _ => rfl⟩
  have hleft := sameTo_after hlocal hstart events
  have hright := sameTo_after hlocal hstart' events'
  rw [hon] at hleft
  have hboth : SameTo topic (after (converse gossipsub) ⟨r, fun _ => []⟩ events)
      (after (converse gossipsub) ⟨r', fun _ => []⟩ events') :=
    ⟨hleft.router.trans hright.router.symm, fun id => (hleft.told id).trans (hright.told id).symm⟩
  exact ⟨hboth, fun _ _ hone _ => mem_publish_congr hboth.router hone⟩

end

namespace TwoTopics

/-- A calm run, with something else going on. -/
def events : List (Event Int) :=
  [.join (Rejoin.clock 0 1) "weather", .join (Rejoin.clock 0 1) "news",
    .publish (Rejoin.clock 500 1) ⟨none, "b", ["weather"]⟩, .heartbeat (Rejoin.clock 1000 1),
    .publish (Rejoin.clock 2000 1) ⟨none, "b", ["weather", "news"]⟩]

end TwoTopics

theorem topics_apart_weather :
    SameTo "news" (after (converse .standard) ⟨Rejoin.router, fun _ => []⟩ TwoTopics.events)
      (after (converse .standard) ⟨Rejoin.router, fun _ => []⟩ Rejoin.calm) := by
  have hon : TwoTopics.events.filterMap (Event.on "news") =
      Rejoin.calm.filterMap (Event.on "news") := rfl
  exact (topics_apart standard_local (AgreeOn.refl "news" Rejoin.router) hon).1

end Relay
end JsWaku
