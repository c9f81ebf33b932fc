import JsWaku.Relay.Router
import Mathlib.Data.List.Sort

/-!
# JsWaku.Relay.Heartbeat

`lib/waku_relay/relay_heartbeat.ts`: one `_heartbeat`.

For every topic joined, five stages edit the mesh in turn, each by pruning or grafting a list of
peers it selects: `dropNegative`, `fillUp`, `cutDown`, `topUpOutbound`, `opportunisticGraft`. Then
the fanout is expired and maintained.

Scores are cached for the whole heartbeat, so they are one function here.
-/

namespace JsWaku
namespace Relay

open Js

/-- Everything one heartbeat reads: the router at its start, the scores and the outcomes of the
shuffles. -/
structure Tick (S : Type) where
  router : Router S
  gossipsub : Gossipsub
  shuffles : Shuffles
  score : Option PeerId → S
  now : Time

/-- What the stages write besides the mesh. `toGraft` and `toPrune` map a peer to topics; a peer not
in the map has none. `grafts` is kept for the proofs. -/
structure Control where
  backoff : Backoff
  toGraft : PeerId → List Topic
  toPrune : PeerId → List Topic
  noPX : PeerId → Bool
  grafts : List Graft

structure MeshRun where
  peers : OrdSet PeerId
  control : Control

/-- `topics.push(topic)`, on the entry of `id` -/
def push (m : PeerId → List Topic) (id : PeerId) (topic : Topic) : PeerId → List Topic :=
  fun p => if p = id then m p ++ [topic] else m p

section

variable {S : Type} [LinearOrder S] [Zero S] (t : Tick S) (topic : Topic)

def Tick.opts : Options S := t.router.options

def prunePeer (run : MeshRun) (id : PeerId) : MeshRun where
  peers := run.peers.delete id
  control := { run.control with
    backoff := t.gossipsub.addBackoff t.now run.control.backoff id topic
    toPrune := push run.control.toPrune id topic }

def graftPeer (run : MeshRun) (id : PeerId) : MeshRun where
  peers := run.peers.add id
  control := { run.control with
    toGraft := push run.control.toGraft id topic
    grafts := run.control.grafts ++ [⟨id, topic, run.control.backoff topic id⟩] }

/-! ## The stages -/

def dropNegative (run : MeshRun) : MeshRun :=
  run.peers.toList.foldl (fun run id =>
    if t.score (some id) < 0 then
      let run := prunePeer t topic run id
      { run with control := { run.control with
          noPX := fun p => if p = id then true else run.control.noPX p } }
    else run) run

/-- Not in the mesh, not direct, not in backoff, and of no negative score. -/
def graftable (run : MeshRun) (id : PeerId) : Bool :=
  !run.peers.has id && !t.router.direct.has id && (run.control.backoff topic id).isNone &&
    decide (0 ≤ t.score (some id))

def relayPeers (draw : Draw) (count : Int) (filter : PeerId → Bool) : OrdSet PeerId :=
  getRelayPeers t.router (t.shuffles.run draw topic) topic count filter

def fillUp (run : MeshRun) : MeshRun :=
  if run.peers.size < t.opts.Dlo then
    let ineed : Int := t.opts.D - run.peers.size
    (relayPeers t topic .fill ineed (graftable t topic run)).toList.foldl (graftPeer topic) run
  else run

/-- `peersArray.sort((a, b) => getScore(b) - getScore(a))`, a stable sort. -/
def sortDescending (peers : List PeerId) : List PeerId :=
  peers.insertionSort fun a b => t.score (some b) ≤ t.score (some a)

def sortAscending (peers : List PeerId) : List PeerId :=
  peers.insertionSort fun a b => t.score (some a) ≤ t.score (some b)

def outboundCount (peers : List PeerId) : Nat := peers.countP t.router.outbound

/-- Element `i` goes to the front, the ones before it one place to the right. -/
def rotate (peersArray : List PeerId) (i : Nat) : List PeerId :=
  match peersArray[i]? with
  | none => peersArray
  | some p => p :: peersArray.eraseIdx i

/-- `for (; i < stop && need > 0; i++) if (outbound(peersArray[i])) { rotate(i); need-- }`, where
`steps` counts `stop - i`. -/
def bubbleUp : (steps i need : Nat) → List PeerId → List PeerId
  | 0, _, _, peersArray => peersArray
  | steps + 1, i, need, peersArray =>
    if need = 0 then peersArray
    else if (peersArray[i]?).any t.router.outbound then
      bubbleUp steps (i + 1) (need - 1) (rotate peersArray i)
    else bubbleUp steps (i + 1) need peersArray

/-- The members in the order of which the first `D` stay. -/
def cutOrder (peers : List PeerId) : List PeerId :=
  let peersArray := sortDescending t peers
  let peersArray := peersArray.take t.opts.Dscore ++
    t.shuffles.run .cut topic (peersArray.drop t.opts.Dscore)
  let outbound := outboundCount t (peersArray.take t.opts.D)
  if outbound < t.opts.Dout then
    let peersArray :=
      if 0 < outbound then bubbleUp t (t.opts.D - 1) 1 outbound peersArray else peersArray
    -- The bound in the source is `D - outbound`, not `Dout - outbound`.
    let ineed := t.opts.D - outbound
    bubbleUp t (peersArray.length - t.opts.D) t.opts.D ineed peersArray
  else peersArray

def cutDown (run : MeshRun) : MeshRun :=
  if t.opts.Dhi < run.peers.size then
    ((cutOrder t topic run.peers.toList).drop t.opts.D).foldl (prunePeer t topic) run
  else run

def topUpOutbound (run : MeshRun) : MeshRun :=
  if t.opts.Dlo ≤ run.peers.size then
    let outbound := outboundCount t run.peers.toList
    if outbound < t.opts.Dout then
      let ineed : Int := t.opts.Dout - outbound
      (relayPeers t topic .topUp ineed (graftable t topic run)).toList.foldl (graftPeer topic) run
    else run
  else run

/-- `getScore(peersList[peers.size / 2])`: half an odd size is no index. -/
def medianScore (peers : OrdSet PeerId) : S :=
  t.score (if peers.size % 2 = 0 then (sortAscending t peers.toList)[peers.size / 2]? else none)

/-- The filter of the last stage, which asks for members of the mesh. -/
def opportune (run : MeshRun) (median : S) (id : PeerId) : Bool :=
  run.peers.has id && !t.router.direct.has id && (run.control.backoff topic id).isNone &&
    decide (median < t.score (some id))

def opportunisticGraft (run : MeshRun) : MeshRun :=
  if t.router.heartbeatTicks % relayOpportunisticGraftTicks = 0 ∧ 1 < run.peers.size then
    let median := medianScore t run.peers
    if median < t.opts.scoreThresholds.opportunisticGraftThreshold then
      (relayPeers t topic .opportunistic relayOpportunisticGraftPeers
        (opportune t topic run median)).toList.foldl (graftPeer topic) run
    else run
  else run

/-- The stages before the last one. -/
def maintainDegree (run : MeshRun) : MeshRun :=
  topUpOutbound t topic (cutDown t topic (fillUp t topic (dropNegative t topic run)))

def maintainTopic (run : MeshRun) : MeshRun :=
  opportunisticGraft t topic (maintainDegree t topic run)

/-- One round of `mesh.forEach`. -/
def meshRound (peers : OrdSet PeerId) (control : Control) : OrdSet PeerId × Control :=
  let run := maintainTopic t topic ⟨peers, control⟩
  (run.peers, run.control)

/-- The topic was last published to too long ago. -/
def expired (lastpub : Time) : Bool := decide (lastpub + relayFanoutTTL < t.now)

/-- One round of `fanout.forEach`. -/
def fanoutRound (fanoutPeers : OrdSet PeerId) : OrdSet PeerId :=
  let publishThreshold := t.opts.scoreThresholds.publishThreshold
  let fanoutPeers := fanoutPeers.filter fun id =>
    t.router.subscribed topic id && !decide (t.score (some id) < publishThreshold)
  if fanoutPeers.size < t.opts.D then
    let ineed : Int := t.opts.D - fanoutPeers.size
    (relayPeers t topic .fanout ineed fun id =>
      !fanoutPeers.has id && !t.router.direct.has id &&
        decide (publishThreshold ≤ t.score (some id))).toList.foldl OrdSet.add fanoutPeers
  else fanoutPeers

end

/-- `gossip` lists the calls of `_emitGossip`: the topic and the peers to leave out. -/
structure Beat (S : Type) where
  router : Router S
  toGraft : PeerId → List Topic
  toPrune : PeerId → List Topic
  noPX : PeerId → Bool
  grafts : List Graft
  gossip : List (Topic × OrdSet PeerId)

section

variable {S : Type} [LinearOrder S] [Zero S]

/-- The tick counter goes up and expired backoffs go before anything else. -/
def tickOf (gossipsub : Gossipsub) (env : Surroundings S) (r : Router S) : Tick S where
  router := { r with
    heartbeatTicks := r.heartbeatTicks + 1
    backoff := gossipsub.clearBackoff env.now (r.heartbeatTicks + 1) r.backoff }
  gossipsub := gossipsub
  shuffles := env.shuffles
  score := env.score
  now := env.now

def Tick.start (t : Tick S) : Control :=
  ⟨t.router.backoff, fun _ => [], fun _ => [], fun _ => false, []⟩

def heartbeat (gossipsub : Gossipsub) (env : Surroundings S) (r : Router S) : Beat S :=
  let t := tickOf gossipsub env r
  let (mesh, control) := t.router.mesh.mapAccum (meshRound t) t.start
  let fanout := t.router.fanout.filter fun e => !(t.router.lastpub.get e.1).any (expired t)
  let lastpub := t.router.lastpub.filter fun e => !expired t e.2
  let fanout := (fanout.mapAccum (fun topic peers (_ : Unit) => (fanoutRound t topic peers, ())) ()).1
  { router := { t.router with
      backoff := control.backoff
      mesh := mesh
      fanout := fanout
      lastpub := lastpub }
    toGraft := control.toGraft
    toPrune := control.toPrune
    noPX := control.noPX
    grafts := control.grafts
    gossip := mesh.entries ++ fanout.entries }

end

end Relay
end JsWaku
