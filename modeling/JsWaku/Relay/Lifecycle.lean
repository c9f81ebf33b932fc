import JsWaku.Lib.Trace
import JsWaku.Message.WakuMessage
import JsWaku.Message.Wire
import JsWaku.Relay.Observers
import JsWaku.Relay.Router
import JsWaku.Store.QueryHistory

/-!
# JsWaku.Relay.Lifecycle

`WakuRelay` as its users see it (`lib/waku_relay/index.ts`): starting and stopping, subscribing,
observers and decryption keys, and what a message received does.

The pubsub class it extends is a parameter. Its event emitter is not: `subscribe` attaches a
listener each time, and nothing detaches one.

* `call`    — a method call; one that throws keeps what it did before.
* `receive` — the registrations called for a message that is emitted under a topic.
* `delivered_once_iff` — each is called once as long as `start` and `subscribe` were called once.
-/

namespace JsWaku
namespace Relay

open Js Trace SymmetricCrypto

/-- The classes above `WakuRelay`, with their state. What is not subscribed to is not received, and
only `subscribe` subscribes. -/
structure Pubsub (β : Type) where
  initial : β
  start : β → β
  stop : β → β
  subscribe : Topic → β → Except Thrown β
  unsubscribe : Topic → β → Except Thrown β
  subscribed : Topic → β → Bool
  initial_none : ∀ topic, subscribed topic initial = false
  start_only : ∀ topic b, subscribed topic (start b) = true → subscribed topic b = true
  stop_only : ∀ topic b, subscribed topic (stop b) = true → subscribed topic b = true
  subscribe_only : ∀ topic topic' b b', subscribe topic' b = .ok b' → subscribed topic b' = true →
    topic = topic' ∨ subscribed topic b = true
  unsubscribe_only : ∀ topic topic' b b', unsubscribe topic' b = .ok b' →
    subscribed topic b' = true → subscribed topic b = true

/-- Only a pubsub that has started subscribes to anything. What it subscribes to it keeps while a
listener is attached, and `WakuRelay` attaches one to every topic and detaches none. -/
def Pubsub.standard : Pubsub (Bool × OrdSet Topic) where
  initial := (false, .empty)
  start b := (true, b.2)
  stop _ := (false, .empty)
  subscribe topic b :=
    if b.1 then .ok (true, b.2.add topic) else .error (.error "Pubsub has not started")
  unsubscribe _ b := if b.1 then .ok b else .error (.error "Pubsub is not started")
  subscribed topic b := b.2.has topic
  initial_none _ := rfl
  start_only _ _ h := h
  stop_only _ _ h := absurd (OrdSet.has_iff.mp h) OrdSet.not_mem_empty
  subscribe_only topic topic' b b' h hsub := by
    split at h
    · cases h
      simpa using hsub
    · cases h
  unsubscribe_only topic topic' b b' h hsub := by
    split at h
    · cases h
      exact hsub
    · cases h

/-- `κ` are the callbacks, `ρ` the byte arrays as objects; `listeners` has the topic of each listener
that was attached. -/
structure WakuRelay (β κ ρ : Type) where
  base : β
  pubSubTopic : Topic
  listeners : List Topic
  observers : Observers κ
  decryptionKeys : OrdSet ρ

inductive Call (κ ρ : Type) where
  | start
  | stop
  | subscribe (pubSubTopic : Topic)
  | unsubscribe (pubSubTopic : Topic)
  | addObserver (callback : κ) (contentTopics : List String)
  | deleteObserver (callback : κ) (contentTopics : List String)
  | addDecryptionKey (privateKey : ρ)
  | deleteDecryptionKey (privateKey : ρ)
  deriving DecidableEq

/-- The topic a call attaches a listener for. -/
def Call.attaches {κ ρ : Type} (pubSubTopic : Topic) : Call κ ρ → Option Topic
  | .start => some pubSubTopic
  | .subscribe topic => some topic
  | .stop => none
  | .unsubscribe _ => none
  | .addObserver _ _ => none
  | .deleteObserver _ _ => none
  | .addDecryptionKey _ => none
  | .deleteDecryptionKey _ => none

/-- How often a node with this topic attached a listener for it. -/
def attachments {κ ρ : Type} (pubSubTopic : Topic) (history : List (Call κ ρ)) : Nat :=
  (history.filterMap (Call.attaches pubSubTopic)).count pubSubTopic

namespace WakuRelay

section

variable {β κ ρ : Type}

def new (pubsub : Pubsub β) (pubSubTopic : Option Topic) : WakuRelay β κ ρ where
  base := pubsub.initial
  pubSubTopic := stringOr pubSubTopic Store.defaultPubSubTopic
  listeners := []
  observers := .empty
  decryptionKeys := .empty

/-- The listener is there even if `super.subscribe` throws. -/
def subscribe (pubsub : Pubsub β) (pubSubTopic : Topic) (relay : WakuRelay β κ ρ) :
    WakuRelay β κ ρ × Except Thrown Unit :=
  let relay := { relay with listeners := relay.listeners ++ [pubSubTopic] }
  match pubsub.subscribe pubSubTopic relay.base with
  | .ok base => ({ relay with base := base }, .ok ())
  | .error e => (relay, .error e)

def start (pubsub : Pubsub β) (relay : WakuRelay β κ ρ) : WakuRelay β κ ρ × Except Thrown Unit :=
  subscribe pubsub relay.pubSubTopic { relay with base := pubsub.start relay.base }

/-- Inherited, like `stop`. -/
def unsubscribe (pubsub : Pubsub β) (pubSubTopic : Topic) (relay : WakuRelay β κ ρ) :
    WakuRelay β κ ρ × Except Thrown Unit :=
  match pubsub.unsubscribe pubSubTopic relay.base with
  | .ok base => ({ relay with base := base }, .ok ())
  | .error e => (relay, .error e)

/-- The arguments of `super.publish`. -/
def send (codec : Proto.Codec) (message : WakuMessage) (relay : WakuRelay β κ ρ) : Topic × Bytes :=
  (relay.pubSubTopic, message.encode codec)

variable [DecidableEq κ] [DecidableEq ρ]

def call (pubsub : Pubsub β) (relay : WakuRelay β κ ρ) :
    Call κ ρ → WakuRelay β κ ρ × Except Thrown Unit
  | .start => relay.start pubsub
  | .stop => ({ relay with base := pubsub.stop relay.base }, .ok ())
  | .subscribe pubSubTopic => relay.subscribe pubsub pubSubTopic
  | .unsubscribe pubSubTopic => relay.unsubscribe pubsub pubSubTopic
  | .addObserver callback contentTopics =>
    let (observers, result) := addObserver callback contentTopics relay.observers
    ({ relay with observers := observers }, result)
  | .deleteObserver callback contentTopics =>
    let (observers, result) := deleteObserver callback contentTopics relay.observers
    ({ relay with observers := observers }, result)
  | .addDecryptionKey privateKey =>
    ({ relay with decryptionKeys := relay.decryptionKeys.add privateKey }, .ok ())
  | .deleteDecryptionKey privateKey =>
    ({ relay with decryptionKeys := relay.decryptionKeys.delete privateKey }, .ok ())

/-- The relay after a call, whether it threw or not. -/
def next (pubsub : Pubsub β) (relay : WakuRelay β κ ρ) (c : Call κ ρ) : WakuRelay β κ ρ :=
  (relay.call pubsub c).1

end

/-! ## A message -/

/-- What decoding depends on; `bytes` is what an array holds, `throws` which callbacks throw on a
message. They leave the observers alone: `OnMessage` is about those that do not. -/
structure Receiver (κ ρ : Type) where
  libs : Libs
  codec : Proto.Codec
  rt : Runtime
  bytes : ρ → Bytes
  throws : WakuMessage → κ → Bool

section

variable {β κ ρ : Type}

/-- `Array.from(this.decryptionKeys)` -/
def keysTried (relay : WakuRelay β κ ρ) (bytes : ρ → Bytes) : List Bytes :=
  relay.decryptionKeys.toList.map bytes

def decode (rc : Receiver κ ρ) (relay : WakuRelay β κ ρ) (data : Bytes) :
    Except Thrown (Option WakuMessage) :=
  JsWaku.decode rc.libs rc.codec rc.rt data (some (relay.keysTried rc.bytes))

/-- One listener: `WakuMessage.decode(..).then(..).catch(..)`. -/
def onMessage (rc : Receiver κ ρ) (relay : WakuRelay β κ ρ) (data : Bytes) : List (String × κ) :=
  match relay.decode rc data with
  | .ok (some wakuMsg) => notify (rc.throws wakuMsg) relay.observers wakuMsg.contentTopic
  | .ok none => []
  | .error _ => []

/-- Every listener of the topic is called. -/
def receive (rc : Receiver κ ρ) (relay : WakuRelay β κ ρ) (topic : Topic) (data : Bytes) :
    List (String × κ) :=
  (relay.listeners.filter (· = topic)).flatMap fun _ => relay.onMessage rc data

end

theorem onMessage_decoded {β κ ρ : Type} {rc : Receiver κ ρ} {relay : WakuRelay β κ ρ}
    {data : Bytes} {wakuMsg : WakuMessage} (hdecode : relay.decode rc data = .ok (some wakuMsg)) :
    relay.onMessage rc data = notify (rc.throws wakuMsg) relay.observers wakuMsg.contentTopic := by
  simp only [onMessage, hdecode]

section

variable {β κ ρ : Type} {pubsub : Pubsub β} {relay relay' : WakuRelay β κ ρ}

/-- What subscribing and unsubscribing leave alone. -/
structure SameEntries (relay relay' : WakuRelay β κ ρ) : Prop where
  observers : relay'.observers = relay.observers
  decryptionKeys : relay'.decryptionKeys = relay.decryptionKeys

theorem sameEntries_subscribe (pubsub : Pubsub β) (topic : Topic) (relay : WakuRelay β κ ρ) :
    SameEntries relay (relay.subscribe pubsub topic).1 := by
  unfold subscribe
  cases h : pubsub.subscribe topic relay.base with
  | ok base => exact ⟨by simp only [h], by simp only [h]⟩
  | error e => exact ⟨by simp only [h], by simp only [h]⟩

theorem sameEntries_unsubscribe (pubsub : Pubsub β) (topic : Topic) (relay : WakuRelay β κ ρ) :
    SameEntries relay (relay.unsubscribe pubsub topic).1 := by
  unfold unsubscribe
  cases pubsub.unsubscribe topic relay.base with
  | ok base => exact ⟨rfl, rfl⟩
  | error e => exact ⟨rfl, rfl⟩

/-- What a call does to the listeners and to the subscriptions. -/
structure Attached (pubsub : Pubsub β) (relay relay' : WakuRelay β κ ρ) (added : Option Topic) :
    Prop where
  pubSubTopic : relay'.pubSubTopic = relay.pubSubTopic
  listeners : relay'.listeners = relay.listeners ++ added.toList
  subscribed : ∀ topic, pubsub.subscribed topic relay'.base = true →
    topic ∈ added.toList ∨ pubsub.subscribed topic relay.base = true

theorem attached_none (hpubSubTopic : relay'.pubSubTopic = relay.pubSubTopic)
    (hlisteners : relay'.listeners = relay.listeners)
    (hsub : ∀ topic, pubsub.subscribed topic relay'.base = true →
      pubsub.subscribed topic relay.base = true) : Attached pubsub relay relay' none where
  pubSubTopic := hpubSubTopic
  listeners := by rw [hlisteners, Option.toList_none, List.append_nil]
  subscribed topic h := .inr (hsub topic h)

theorem attached_subscribe (pubsub : Pubsub β) (relay : WakuRelay β κ ρ) (topic : Topic) :
    Attached pubsub relay (relay.subscribe pubsub topic).1 (some topic) := by
  unfold subscribe
  cases h : pubsub.subscribe topic relay.base with
  | ok base =>
    simp only [h]
    refine ⟨rfl, rfl, fun topic' hsub => ?_⟩
    rw [Option.toList_some, List.mem_singleton]
    exact pubsub.subscribe_only topic' topic _ _ h hsub
  | error e =>
    simp only [h]
    exact ⟨rfl, rfl, fun _ => .inr⟩

theorem attached_unsubscribe (pubsub : Pubsub β) (relay : WakuRelay β κ ρ) (topic : Topic) :
    Attached pubsub relay (relay.unsubscribe pubsub topic).1 none := by
  unfold unsubscribe
  cases h : pubsub.unsubscribe topic relay.base with
  | ok base => exact attached_none rfl rfl fun topic' => pubsub.unsubscribe_only topic' topic _ _ h
  | error e => exact attached_none rfl rfl fun _ hsub => hsub

variable {history : List (Call κ ρ)}

/-- Each attachment has left a listener, and no subscription is without one. -/
structure Listening (pubsub : Pubsub β) (history : List (Call κ ρ)) (relay : WakuRelay β κ ρ) :
    Prop where
  listeners : relay.listeners = history.filterMap (Call.attaches relay.pubSubTopic)
  subscribed : ∀ topic, pubsub.subscribed topic relay.base = true → topic ∈ relay.listeners

theorem listening_new (pubsub : Pubsub β) (pubSubTopic : Option Topic) :
    Listening pubsub ([] : List (Call κ ρ)) (new pubsub pubSubTopic) := by
  refine ⟨rfl, fun topic h => ?_⟩
  change pubsub.subscribed topic pubsub.initial = true at h
  rw [pubsub.initial_none] at h
  cases h

variable [DecidableEq κ] [DecidableEq ρ]

theorem attached_next (pubsub : Pubsub β) (relay : WakuRelay β κ ρ) (c : Call κ ρ) :
    Attached pubsub relay (relay.next pubsub c) (c.attaches relay.pubSubTopic) := by
  cases c with
  | start =>
    obtain ⟨hsame, hlisteners, hsub⟩ :=
      attached_subscribe pubsub { relay with base := pubsub.start relay.base } relay.pubSubTopic
    exact ⟨hsame, hlisteners, fun topic h => (hsub topic h).imp_right (pubsub.start_only topic _)⟩
  | stop => exact attached_none rfl rfl fun topic => pubsub.stop_only topic _
  | subscribe topic => exact attached_subscribe pubsub relay topic
  | unsubscribe topic => exact attached_unsubscribe pubsub relay topic
  | addObserver callback contentTopics => exact attached_none rfl rfl fun _ hsub => hsub
  | deleteObserver callback contentTopics => exact attached_none rfl rfl fun _ hsub => hsub
  | addDecryptionKey privateKey => exact attached_none rfl rfl fun _ hsub => hsub
  | deleteDecryptionKey privateKey => exact attached_none rfl rfl fun _ hsub => hsub

/-- The relay after a history of calls on a new one. -/
def afterCalls (pubsub : Pubsub β) (pubSubTopic : Option Topic) (history : List (Call κ ρ)) :
    WakuRelay β κ ρ :=
  after (next pubsub) (new pubsub pubSubTopic) history

theorem Listening.next {c : Call κ ρ} (h : Listening pubsub history relay) :
    Listening pubsub (history ++ [c]) (relay.next pubsub c) := by
  obtain ⟨hsame, hadded, hsub⟩ := attached_next pubsub relay c
  constructor
  · rw [hadded, hsame, h.listeners, List.filterMap_append]
    cases hc : c.attaches relay.pubSubTopic <;> simp [hc]
  · intro topic hbase
    rw [hadded, List.mem_append]
    exact (hsub topic hbase).symm.imp_left (h.subscribed topic)

theorem listening_afterCalls (pubsub : Pubsub β) (pubSubTopic : Option Topic)
    (history : List (Call κ ρ)) : Listening pubsub history (afterCalls pubsub pubSubTopic history) :=
  after_invariant (listening_new pubsub pubSubTopic) (fun _ _ _ h => h.next) history

end

section

variable {β κ ρ : Type} [DecidableEq κ] {rc : Receiver κ ρ} {relay : WakuRelay β κ ρ}
  {data : Bytes} {wakuMsg : WakuMessage}

/-- Every registration that wants the message has its callback called once for it. -/
def DeliversOnce (rc : Receiver κ ρ) (relay : WakuRelay β κ ρ) (data : Bytes)
    (wakuMsg : WakuMessage) : Prop :=
  ∀ registration ∈ registered relay.observers wakuMsg.contentTopic,
    (relay.receive rc relay.pubSubTopic data).count registration = 1

theorem count_receive (hdecode : relay.decode rc data = .ok (some wakuMsg)) (topic : Topic)
    (registration : String × κ) : (relay.receive rc topic data).count registration =
      relay.listeners.count topic *
        (notify (rc.throws wakuMsg) relay.observers wakuMsg.contentTopic).count registration := by
  unfold receive
  rw [onMessage_decoded hdecode]
  induction relay.listeners with
  | nil => simp
  | cons l ls ih =>
    by_cases hl : l = topic
    · simp only [hl, List.filter_cons, decide_true, ite_true, List.flatMap_cons, List.count_append,
        ih, List.count_cons_self, Nat.succ_mul, Nat.add_comm]
    · simp [hl, ih]

theorem count_once_iff {n : Nat} (hn : 0 < n) {called wanted : List (String × κ)}
    (hcalled : called <+: wanted) (hnodup : wanted.Nodup) :
    (∀ registration ∈ wanted, n * called.count registration = 1) ↔
      wanted = [] ∨ n ≤ 1 ∧ called = wanted := by
  constructor
  · intro h
    cases wanted with
    | nil => exact .inl rfl
    | cons first rest =>
      have hone : n = 1 := Nat.eq_one_of_mul_eq_one_right (h first List.mem_cons_self)
      have hsub : first :: rest ⊆ called := by
        intro registration hmem
        have hcount := h registration hmem
        rw [hone, Nat.one_mul] at hcount
        exact List.count_pos_iff.mp (by omega)
      refine .inr ⟨Nat.le_of_eq hone, hcalled.eq_of_length_le ?_⟩
      exact (hnodup.subperm hsub).length_le
  · rintro (rfl | ⟨hle, rfl⟩)
    · exact fun _ h => absurd h List.not_mem_nil
    · intro registration hmem
      rw [show n = 1 by omega, Nat.one_mul]
      exact List.count_eq_one_of_mem hnodup hmem

variable [DecidableEq ρ]

theorem delivered_once_iff (pubsub : Pubsub β) (pubSubTopic : Option Topic)
    (history : List (Call κ ρ)) (hrelay : relay = afterCalls pubsub pubSubTopic history)
    (hreceives : pubsub.subscribed relay.pubSubTopic relay.base = true)
    (hdecode : relay.decode rc data = .ok (some wakuMsg)) :
    DeliversOnce rc relay data wakuMsg ↔
      registered relay.observers wakuMsg.contentTopic = [] ∨
        attachments relay.pubSubTopic history ≤ 1 ∧
          ∀ registration ∈ (registered relay.observers wakuMsg.contentTopic).dropLast,
            rc.throws wakuMsg registration.2 = false := by
  have hlistening := listening_afterCalls pubsub pubSubTopic history
  rw [← hrelay] at hlistening
  have hpos := List.count_pos_iff.mpr (hlistening.subscribed _ hreceives)
  rw [DeliversOnce, attachments, ← hlistening.listeners, ← notify_eq_iff]
  simp only [count_receive hdecode]
  exact count_once_iff hpos notify_isPrefix registered_nodup

end

end WakuRelay

namespace Restarted

open WakuRelay

def receiver : Receiver Nat Nat :=
  ⟨.transparent, Proto.wireCodec .strict, .node, fun _ => [], fun _ _ => false⟩

def proto : Proto.WakuMessage := ⟨some [1], some "/hello", some 0, some 0⟩

def data : Bytes := receiver.codec.encode proto

def calm : List (Call Nat Nat) := [.addObserver 0 [], .start]

def history : List (Call Nat Nat) := [.addObserver 0 [], .start, .stop, .start]

def relay (history : List (Call Nat Nat)) : WakuRelay (Bool × OrdSet Topic) Nat Nat :=
  afterCalls .standard none history

theorem decodes (relay : WakuRelay (Bool × OrdSet Topic) Nat Nat) :
    relay.decode receiver data = .ok (some ⟨proto, none, none⟩) := by
  have hcodec : receiver.codec.Undoes proto :=
    Proto.wireCodec_undoes _ ⟨by rintro b ⟨⟩; decide, by rintro s ⟨⟩; decide⟩
  rw [WakuRelay.decode, JsWaku.decode, data, hcodec, ok_bind]
  exact decodeProto_clear rfl (by decide) _

end Restarted

theorem delivered_once_calm :
    registered (Restarted.relay Restarted.calm).observers (some "/hello") = [("", 0)] ∧
      WakuRelay.DeliversOnce Restarted.receiver (Restarted.relay Restarted.calm) Restarted.data
        ⟨Restarted.proto, none, none⟩ := by
  refine ⟨by decide, ?_⟩
  refine (WakuRelay.delivered_once_iff .standard none Restarted.calm rfl (by decide)
    (Restarted.decodes _)).mpr (.inr ⟨by decide, ?_⟩)
  intro _ _
  rfl

theorem restart_delivers_twice :
    Pubsub.standard.subscribed (Restarted.relay Restarted.history).pubSubTopic
        (Restarted.relay Restarted.history).base = true ∧
      ¬ WakuRelay.DeliversOnce Restarted.receiver (Restarted.relay Restarted.history)
        Restarted.data ⟨Restarted.proto, none, none⟩ := by
  refine ⟨by decide, fun h => ?_⟩
  have hcount := h ("", 0) (by decide)
  rw [WakuRelay.count_receive (Restarted.decodes _)] at hcount
  exact absurd hcount (by decide)

end Relay
end JsWaku
