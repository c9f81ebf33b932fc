import JsWaku.Message.Letter
import JsWaku.Relay.Delivery
import JsWaku.Relay.Network

/-!
# JsWaku.Relay.Broadcast

From one node to all others: what is called where, after a message has gone through the network.

* `Subscriber` — a node as its user sees it: the calls on its relay, and what decoding depends on.
* `callsAt`    — the callbacks that a node has called. Gossipsub emits a message when a node first
  sees it, and no message of the node's own, as `emitSelf` is not set.
* `network_delivers` — the nodes linked to the author that hold the key have called the callbacks that
  want the message, once for each listener; nobody has called any other.
-/

namespace JsWaku
namespace Relay

open Js Trace Flood SymmetricCrypto WakuRelay

structure Subscriber (κ ρ : Type) where
  rc : Receiver κ ρ
  history : List (Call κ ρ)

/-- A message of a relay, which signs none. -/
def outgoing (author : PeerId) (sent : Topic × Bytes) : InMessage := ⟨none, author, [sent.1]⟩

section

variable {β κ ρ S : Type} [DecidableEq κ] [DecidableEq ρ]

def Subscriber.relay (pubsub : Pubsub β) (pubSubTopic : Option Topic) (n : Subscriber κ ρ) :
    WakuRelay β κ ρ := afterCalls pubsub pubSubTopic n.history

/-- A node that receives what is sent on its topic, and whose callbacks do not throw. -/
structure Subscriber.Sound (pubsub : Pubsub β) (pubSubTopic : Option Topic) (libs : Libs)
    (codec : Proto.Codec) (topic : Topic) (n : Subscriber κ ρ) : Prop where
  libs : n.rc.libs = libs
  codec : n.rc.codec = codec
  onTopic : (n.relay pubsub pubSubTopic).pubSubTopic = topic
  receives : pubsub.subscribed topic (n.relay pubsub pubSubTopic).base = true
  ordinary : ∀ e ∈ n.history.filterMap Call.edit, ∀ t ∈ e.topics, t ∉ objectPrototype
  throws : ∀ r callback, n.rc.throws r callback = false

def callsAt (pubsub : Pubsub β) (pubSubTopic : Option Topic) (n : Subscriber κ ρ) (s : Network S)
    (author : PeerId) (sent : Topic × Bytes) (id : PeerId) : List (String × κ) :=
  (s.spread.hearers.filter (· = id)).flatMap fun v =>
    if v = author then [] else emit pubsub n.rc (n.relay pubsub pubSubTopic) sent.1 sent.2

/-- What a node has done about a letter, if `gets` says whether it gets it. -/
structure Handles (pubsub : Pubsub β) (pubSubTopic : Option Topic) {libs : Libs} (l : Letter libs)
    (n : Subscriber κ ρ) (sent : Topic × Bytes) (gets : Prop) (calls : List (String × κ)) : Prop where
  opens : gets →
    HoldsKey libs l.options l.cipher ((n.relay pubsub pubSubTopic).keysTried n.rc.bytes) →
    ∃ r, (n.relay pubsub pubSubTopic).decode n.rc sent.2 = .ok (some r) ∧
      Restored libs l.payload l.contentTopic l.options l.message r ∧ ∀ registration,
        (Wants n.history l.contentTopic registration →
          calls.count registration = attachments sent.1 n.history) ∧
        (¬ Wants n.history l.contentTopic registration → registration ∉ calls)
  closed : l.Closed ((n.relay pubsub pubSubTopic).keysTried n.rc.bytes) → calls = []
  misses : ¬ gets → calls = []

variable {pubsub : Pubsub β} {pubSubTopic : Option Topic} {libs : Libs} {codec : Proto.Codec}
  {n : Subscriber κ ρ} {l : Letter libs} {topic : Topic}

theorem Subscriber.Sound.decode (h : n.Sound pubsub pubSubTopic libs codec topic)
    (hundoes : codec.Undoes l.message.proto) :
    (n.relay pubsub pubSubTopic).decode n.rc (l.message.encode codec) =
      decodeProto libs n.rc.rt l.message.proto
        (some ((n.relay pubsub pubSubTopic).keysTried n.rc.bytes)) := by
  rw [WakuRelay.decode, JsWaku.decode, h.codec, WakuMessage.encode, hundoes, ok_bind, h.libs]

theorem handles_of_calls {sent : Topic × Bytes} {gets : Prop} {calls : List (String × κ)}
    (hlibs : libs.Lawful) (h : n.Sound pubsub pubSubTopic libs codec topic)
    (hundoes : codec.Undoes l.message.proto) (hsent : sent = (topic, l.message.encode codec))
    (hgets : gets → calls = (n.relay pubsub pubSubTopic).receive n.rc sent.1 sent.2)
    (hmisses : ¬ gets → calls = []) :
    Handles pubsub pubSubTopic l n sent gets calls := by
  subst hsent
  refine ⟨fun hget hkeys => ?_, fun hclosed => ?_, hmisses⟩
  · obtain ⟨r, hr, hdecode⟩ := l.opens hlibs n.rc.rt hkeys
    rw [← h.decode hundoes] at hdecode
    refine ⟨r, hdecode, hr, fun registration => ?_⟩
    have hcount := count_receive_wants registration rfl h.ordinary h.throws hdecode hr.contentTopic
    rw [hgets hget, ← List.count_eq_zero, ← h.onTopic]
    exact hcount
  · by_cases hget : gets
    · have hdecode := hclosed.decode hlibs n.rc.rt
      rw [← h.decode hundoes] at hdecode
      rw [hgets hget]
      exact receive_nil hdecode topic
    · exact hmisses hget

theorem callsAt_eq {s : Network S} (hnodup : s.spread.hearers.Nodup) (author : PeerId)
    (sent : Topic × Bytes) (id : PeerId) : callsAt pubsub pubSubTopic n s author sent id =
      if id ≠ author ∧ id ∈ s.spread.hearers then
        emit pubsub n.rc (n.relay pubsub pubSubTopic) sent.1 sent.2 else [] := by
  rw [callsAt, List.filter_eq, hnodup.count]
  by_cases hin : id ∈ s.spread.hearers <;> by_cases hid : id = author <;> simp [hin, hid]

variable [LinearOrder S] [Zero S] {takes : PeerId → PeerId → Bool} {author : PeerId}

theorem network_delivers {β' κ' ρ' : Type} (gossipsub : Gossipsub) (sender : WakuRelay β' κ' ρ')
    (hlibs : libs.Lawful) (l : Letter libs) (hundoes : codec.Undoes l.message.proto)
    (nodes : PeerId → Subscriber κ ρ)
    (hnodes : ∀ id, (nodes id).Sound pubsub pubSubTopic libs codec sender.pubSubTopic)
    (routers : PeerId → Router S) (env : Surroundings S) (events : List (NetEvent S))
    {sent : Topic × Bytes} (hsent : sent = sender.send codec l.message) {s : Network S}
    (hs : s = after (Network.step gossipsub takes (outgoing author sent))
      (.announce takes (outgoing author sent) routers author env) events)
    (hquiet : s.spread.inFlight = []) (id : PeerId) :
    Handles pubsub pubSubTopic l (nodes id) sent
      (id ≠ author ∧
        Relation.ReflTransGen (Link (rules takes (outgoing author sent)) s.spread) author id)
      (callsAt pubsub pubSubTopic (nodes id) s author sent id) := by
  have hspreads := @spreads_run S _ gossipsub takes (outgoing author sent) author _
    (by rintro _ ⟨⟩) routers env events
  rw [← hs] at hspreads
  have hcalls := @callsAt_eq β κ ρ S _ _ pubsub pubSubTopic (nodes id) s
    hspreads.invariant.nodup author sent id
  rw [← heard_iff hspreads hquiet]
  refine handles_of_calls hlibs (hnodes id) hundoes hsent (fun hget => ?_) fun hmiss => ?_
  · have hreceives := (hnodes id).receives
    rw [hcalls, if_pos hget, emit, hsent, send, if_pos hreceives]
  · rw [hcalls, if_neg hmiss]

end

namespace TwoSubscribers

/-- One has the key, the other does not. -/
def nodes (id : PeerId) : Subscriber Nat Nat where
  rc := SealedWord.receiver
  history := if id = "a" then SealedWord.history else [.addObserver 1 ["/hello"], .start]

def sender : WakuRelay (Bool × OrdSet Topic) Nat Nat := new .standard (some "news")

def sent : Topic × Bytes := sender.send Hello.codec Hello.letter.message

theorem sound (id : PeerId) : (nodes id).Sound .standard (some "news") Libs.transparent Hello.codec
    "news" := by
  have hboth : ∀ history ∈ [SealedWord.history, [.addObserver 1 ["/hello"], .start]],
      Subscriber.Sound .standard (some "news") Libs.transparent Hello.codec "news"
        ⟨SealedWord.receiver, history⟩ := by
    intro history hhistory
    rw [List.mem_cons, List.mem_singleton] at hhistory
    rcases hhistory with rfl | rfl
    · exact ⟨rfl, rfl, rfl, by decide, SealedWord.ordinary, fun _ _ => rfl⟩
    · exact ⟨rfl, rfl, rfl, by decide, by decide, fun _ _ => rfl⟩
  unfold nodes
  split
  · exact hboth _ List.mem_cons_self
  · exact hboth _ (List.mem_cons_of_mem _ List.mem_cons_self)

theorem quiet : TwoNodes.network.spread.inFlight = [] := by decide

theorem linked : Relation.ReflTransGen
    (Link (rules TwoNodes.takes TwoNodes.message) TwoNodes.network.spread) "b" "a" := by
  have hheard : "a" ∈ TwoNodes.network.spread.hearers := by
    rw [TwoNodes.hearers]
    exact List.mem_cons_self
  refine (heard_iff (spreads_run ?_ TwoNodes.origin (Rejoin.clock 0 1) TwoNodes.arrivals)
    quiet).mp hheard
  rintro _ ⟨⟩

theorem wants : Wants SealedWord.history "/hello" ("/hello", 1) :=
  ⟨.inr rfl, [], ⟨true, 1, ["/hello"]⟩, [], rfl, ⟨rfl, List.mem_cons_self, rfl⟩,
    List.forall_mem_nil _⟩

end TwoSubscribers

theorem network_delivers_two : (callsAt .standard (some "news") (TwoSubscribers.nodes "a")
    TwoNodes.network "b" TwoSubscribers.sent "a").count ("/hello", 1) = 1 := by
  have h := @network_delivers (Bool × OrdSet Topic) Nat Nat Int _ _ .standard (some "news")
    Libs.transparent Hello.codec _ _ TwoNodes.takes "b" _ _ _ .standard TwoSubscribers.sender
    Libs.transparent_lawful Hello.letter Hello.codec_undoes TwoSubscribers.nodes
    TwoSubscribers.sound TwoNodes.origin (Rejoin.clock 0 1) TwoNodes.arrivals TwoSubscribers.sent rfl
    TwoNodes.network rfl TwoSubscribers.quiet "a"
  obtain ⟨r, _, _, hcount⟩ :=
    h.opens ⟨by decide, TwoSubscribers.linked⟩ SealedWord.holdsKey
  exact (hcount ("/hello", 1)).1 TwoSubscribers.wants

end Relay
end JsWaku
