import JsWaku.Js.OrdMap
import JsWaku.Js.OrdSet
import Mathlib.Algebra.Ring.Int.Defs
import Mathlib.Order.Lattice

/-!
# JsWaku.Relay.Router

The state of a relay node (`lib/waku_relay/index.ts`, as far as routing reads it), the constants,
and `lib/waku_relay/get_relay_peers.ts`.

Scores are elements of any linear order with a zero. Times are milliseconds. What belongs to
`libp2p-gossipsub` is a parameter: the shuffle, and the two functions on the backoff table.

* `RelayPeer`     — a peer subscribed to a topic over a relay codec.
* `getRelayPeers` — some of the relay peers that pass a filter: all of them, or `count` of them.
-/

namespace JsWaku
namespace Relay

open Js

abbrev PeerId := String
abbrev Topic := String
abbrev Time := Int

def relayCodecs : List String := ["/vac/waku/relay/2.0.0-beta2", "/vac/waku/relay/2.0.0"]
def relayPruneBackoff : Time := 60 * 1000
def relayFanoutTTL : Time := 60 * 1000
def relayOpportunisticGraftTicks : Nat := 60
def relayOpportunisticGraftPeers : Nat := 2

structure ScoreThresholds (S : Type) where
  publishThreshold : S
  opportunisticGraftThreshold : S

structure Options (S : Type) where
  D : Nat
  Dlo : Nat
  Dhi : Nat
  Dscore : Nat
  Dout : Nat
  scoreThresholds : ScoreThresholds S

/-- When the backoff of a peer for a topic expires. -/
abbrev Backoff := Topic → PeerId → Option Time

/-- `peers` gives the protocol of a peer's streams, `outbound` is false where the map has nothing,
and a topic without a backoff map has no entries. -/
structure Router (S : Type) where
  options : Options S
  peers : PeerId → Option String
  topics : Topic → Option (OrdSet PeerId)
  direct : OrdSet PeerId
  outbound : PeerId → Bool
  backoff : Backoff
  mesh : OrdMap Topic (OrdSet PeerId)
  fanout : OrdMap Topic (OrdSet PeerId)
  lastpub : OrdMap Topic Time
  heartbeatTicks : Nat
  started : Bool

/-- A GRAFT that was decided on, with the entry the backoff table then had for the pair. -/
structure Graft where
  id : PeerId
  topic : Topic
  entry : Option Time
  deriving DecidableEq, Repr

/-- The calls of `shuffle`, none of which is made twice for a topic in one operation. -/
inductive Draw where
  | fill
  | cut
  | topUp
  | opportunistic
  | fanout
  | join
  | publish
  | getPeers
  deriving DecidableEq, Repr

structure Shuffles where
  run : Draw → Topic → List PeerId → List PeerId
  perm : ∀ draw topic l, (run draw topic l).Perm l

/-- `_addBackoff` gives the pair an entry and touches no other; `_clearBackoff` drops expired
entries only. -/
structure Gossipsub where
  addBackoff : Time → Backoff → PeerId → Topic → Backoff
  clearBackoff : Time → Nat → Backoff → Backoff
  addBackoff_self : ∀ now b id topic, addBackoff now b id topic topic id ≠ none
  addBackoff_other : ∀ now b id topic topic' id', topic' ≠ topic ∨ id' ≠ id →
    addBackoff now b id topic topic' id' = b topic' id'
  clearBackoff_cases : ∀ now ticks b topic id,
    clearBackoff now ticks b topic id = b topic id ∨
      (clearBackoff now ticks b topic id = none ∧ ∃ expire, b topic id = some expire ∧ expire < now)

/-- The scores, the shuffles and the clock an operation finds. `score none` is the score of
`undefined`, which the median of an odd mesh asks for. -/
structure Surroundings (S : Type) where
  score : Option PeerId → S
  shuffles : Shuffles
  now : Time

namespace Gossipsub

def pruneBackoff : Time := 60 * 1000
def pruneBackoffTicks : Nat := 15

/-- An entry is put off, never brought forward; expired ones go every 15 ticks. -/
def standard : Gossipsub where
  addBackoff now b id topic topic' id' :=
    if topic' = topic ∧ id' = id then some (max ((b topic id).getD 0) (now + pruneBackoff))
    else b topic' id'
  clearBackoff now ticks b topic id :=
    if ticks % pruneBackoffTicks = 0 then (b topic id).filter fun expire => !decide (expire < now)
    else b topic id
  addBackoff_self _ _ _ _ := by simp
  addBackoff_other _ _ _ _ _ _ h := if_neg fun h' => h.elim (absurd h'.1) (absurd h'.2)
  clearBackoff_cases now ticks b topic id := by
    split
    · cases b topic id with
      | none => exact .inl rfl
      | some expire =>
        by_cases h : expire < now
        · exact .inr ⟨by simp [Option.filter, h], expire, rfl, h⟩
        · exact .inl (by simp [Option.filter, h])
    · exact .inl rfl

end Gossipsub

def Shuffles.identity : Shuffles := ⟨fun _ _ l => l, fun _ _ l => List.Perm.refl l⟩

/-- The shuffle that brings `id` to the front. -/
def Shuffles.favouring (id : PeerId) : Shuffles where
  run _ _ l := if id ∈ l then id :: l.erase id else l
  perm _ _ l := by
    split
    · rename_i h
      exact (List.perm_cons_erase h).symm
    · exact List.Perm.refl l

/-! ## Relay peers -/

section

variable {S : Type}

/-- The peer's streams speak a relay protocol. -/
def Router.speaksRelay (r : Router S) (id : PeerId) : Bool :=
  match r.peers id with
  | none => false
  | some protocol => relayCodecs.contains protocol

def Router.subscribed (r : Router S) (topic : Topic) (id : PeerId) : Bool :=
  match r.topics topic with
  | none => false
  | some peersInTopic => peersInTopic.has id

def RelayPeer (r : Router S) (topic : Topic) (id : PeerId) : Prop :=
  r.subscribed topic id = true ∧ r.speaksRelay id = true

instance (r : Router S) (topic : Topic) (id : PeerId) : Decidable (RelayPeer r topic id) :=
  inferInstanceAs (Decidable (_ ∧ _))

/-- The relay peers of a topic that pass the filter, in the order of the topic's set. -/
def candidates (r : Router S) (topic : Topic) (filter : PeerId → Bool) : List PeerId :=
  match r.topics topic with
  | none => []
  | some peersInTopic => peersInTopic.toList.filter fun id => r.speaksRelay id && filter id

/-- `count > 0 && peers.length > count` -/
def truncate (count : Int) (peers : List PeerId) : List PeerId :=
  if 0 < count ∧ count < peers.length then peers.take count.toNat else peers

def getRelayPeers (r : Router S) (shuffle : List PeerId → List PeerId) (topic : Topic) (count : Int)
    (filter : PeerId → Bool) : OrdSet PeerId :=
  .ofList (truncate count (shuffle (candidates r topic filter)))

variable {r : Router S} {shuffle : List PeerId → List PeerId} {topic : Topic} {count : Int}
  {filter : PeerId → Bool} {id : PeerId}

theorem mem_candidates : id ∈ candidates r topic filter ↔ RelayPeer r topic id ∧ filter id = true := by
  unfold candidates RelayPeer Router.subscribed
  split
  · simp
  · simp [OrdSet.mem_def, and_assoc]

theorem candidates_nodup : (candidates r topic filter).Nodup := by
  unfold candidates
  split
  · exact List.nodup_nil
  · rename_i peersInTopic _
    exact peersInTopic.nodup.filter _

theorem truncate_sublist (count : Int) (l : List PeerId) : (truncate count l).Sublist l := by
  unfold truncate
  split
  · exact List.take_sublist _ _
  · exact List.Sublist.refl _

theorem truncate_length (hcount : 0 < count) (l : List PeerId) :
    ((truncate count l).length : Int) = min count l.length := by
  unfold truncate
  split
  · rw [List.length_take]; omega
  · omega

theorem truncate_of_le {l : List PeerId} (h : count ≤ 0 ∨ (l.length : Int) ≤ count) :
    truncate count l = l := if_neg (by omega)

theorem toList_getRelayPeers (hperm : ∀ l, (shuffle l).Perm l) :
    (getRelayPeers r shuffle topic count filter).toList =
      truncate count (shuffle (candidates r topic filter)) :=
  OrdSet.toList_ofList
    (((hperm _).nodup_iff.mpr candidates_nodup).sublist (truncate_sublist _ _))

theorem of_mem_getRelayPeers (hperm : ∀ l, (shuffle l).Perm l)
    (h : id ∈ getRelayPeers r shuffle topic count filter) :
    RelayPeer r topic id ∧ filter id = true := by
  rw [OrdSet.mem_def, toList_getRelayPeers hperm] at h
  exact mem_candidates.mp ((hperm _).mem_iff.mp ((truncate_sublist _ _).subset h))

theorem size_getRelayPeers (hperm : ∀ l, (shuffle l).Perm l) (hcount : 0 < count) (r : Router S)
    (topic : Topic) (filter : PeerId → Bool) :
    ((getRelayPeers r shuffle topic count filter).size : Int) =
      min count (candidates r topic filter).length := by
  rw [OrdSet.size, toList_getRelayPeers hperm, truncate_length hcount, (hperm _).length_eq]

/-- Whatever the count, somebody is chosen as long as there is somebody. -/
theorem getRelayPeers_pos_iff (hperm : ∀ l, (shuffle l).Perm l) :
    0 < (getRelayPeers r shuffle topic count filter).size ↔
      ∃ id, RelayPeer r topic id ∧ filter id = true := by
  rw [OrdSet.size, toList_getRelayPeers hperm]
  constructor
  · intro h
    obtain ⟨id, hid⟩ := List.exists_mem_of_length_pos h
    exact ⟨id, mem_candidates.mp ((hperm _).mem_iff.mp ((truncate_sublist _ _).subset hid))⟩
  · rintro ⟨id, hid⟩
    have hpos := List.length_pos_of_mem (mem_candidates.mpr hid)
    rw [← (hperm _).length_eq] at hpos
    unfold truncate
    split
    · rw [List.length_take]
      omega
    · exact hpos

/-- Fewer than `count` are all there are. -/
theorem mem_getRelayPeers_of_lt (hperm : ∀ l, (shuffle l).Perm l)
    (hsize : ((getRelayPeers r shuffle topic count filter).size : Int) < count)
    (hpeer : RelayPeer r topic id) (hfilter : filter id = true) :
    id ∈ getRelayPeers r shuffle topic count filter := by
  have hcount : 0 < count := by omega
  rw [size_getRelayPeers hperm hcount] at hsize
  rw [OrdSet.mem_def, toList_getRelayPeers hperm, truncate_of_le (.inr _), (hperm _).mem_iff]
  · exact mem_candidates.mpr ⟨hpeer, hfilter⟩
  · rw [(hperm _).length_eq]; omega

theorem mem_getRelayPeers_favouring (draw : Draw) (count : Int) (hpeer : RelayPeer r topic id)
    (hfilter : filter id = true) :
    id ∈ getRelayPeers r ((Shuffles.favouring id).run draw topic) topic count filter := by
  have hin : id ∈ candidates r topic filter := mem_candidates.mpr ⟨hpeer, hfilter⟩
  have hfront : (Shuffles.favouring id).run draw topic (candidates r topic filter) =
      id :: (candidates r topic filter).erase id := if_pos hin
  rw [OrdSet.mem_def, toList_getRelayPeers ((Shuffles.favouring id).perm draw topic), hfront,
    truncate]
  split
  · rename_i hcount
    obtain ⟨n, hn⟩ : ∃ n, count.toNat = n + 1 := ⟨count.toNat - 1, by omega⟩
    rw [hn, List.take_succ_cons]
    exact List.mem_cons_self
  · exact List.mem_cons_self

end

end Relay
end JsWaku
