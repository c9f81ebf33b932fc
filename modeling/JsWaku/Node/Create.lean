import JsWaku.LightPush.Push
import JsWaku.Relay.Lifecycle

/-!
# JsWaku.Node.Create

`Waku.create` (`lib/waku.ts`): how the pubsub topic of the options gets to the three protocols of a
node.

* `Waku.create` — the topic goes into the pubsub config, to the store, and nowhere else.
* `OneTopic`    — a message published, a request pushed and a query asked are about one topic.
* `oneTopic_iff` — they are, exactly when the topic is the default one and the query does not undo it.
-/

namespace JsWaku
namespace Node

open Js Relay

/-- The part of `libp2p.config.pubsub` that names a topic. -/
structure PubsubConfig where
  pubSubTopic : OptField Topic

/-- No options at all are the same as none set. -/
structure CreateOptions where
  pubSubTopic : Option Topic
  pubsub : PubsubConfig

/-- What libp2p hands to the constructor of the relay. -/
def CreateOptions.relayTopic (options : CreateOptions) : Option Topic :=
  match options.pubSubTopic with
  | some t =>
    if t ≠ "" then options.pubsub.pubSubTopic.assign t else options.pubsub.pubSubTopic.get
  | none => options.pubsub.pubSubTopic.get

structure Waku (β κ ρ : Type) where
  relay : WakuRelay β κ ρ
  store : Store.WakuStore
  lightPush : LightPush.WakuLightPush

def Waku.create {β κ ρ : Type} (pubsub : Pubsub β) (libp2p : Store.Libp2p) (options : CreateOptions) :
    Waku β κ ρ where
  relay := .new pubsub options.relayTopic
  store := .new libp2p options.pubSubTopic
  lightPush := .new libp2p none

/-- The topic the options ask for. -/
def CreateOptions.topic (options : CreateOptions) : Topic :=
  stringOr options.pubSubTopic Store.defaultPubSubTopic

def CreateOptions.SetsNoOther (options : CreateOptions) : Prop :=
  ∀ topic, options.pubsub.pubSubTopic ≠ .value topic

structure OneTopic (topic : Topic) (published : Topic × Bytes) (pushed : LightPush.PushRPC)
    (asked : Store.HistoryRPC) : Prop where
  relay : published.1 = topic
  lightPush : pushed.request.map LightPush.PushRequest.pubSubTopic = some topic
  store : asked.query.bind Store.HistoryQuery.pubSubTopic = some topic

section

variable {β κ ρ : Type} {pubsub : Pubsub β} {libp2p : Store.Libp2p} {options : CreateOptions}

theorem create_store_topic :
    (Waku.create pubsub libp2p options : Waku β κ ρ).store.pubSubTopic = options.topic := by
  unfold Waku.create Store.WakuStore.new CreateOptions.topic stringOr
  cases options.pubSubTopic with
  | none => rfl
  | some t => by_cases h : t = "" <;> simp [h]

theorem create_lightPush_topic :
    (Waku.create pubsub libp2p options : Waku β κ ρ).lightPush.pubSubTopic =
      Store.defaultPubSubTopic := rfl

/-- An explicit `undefined` in the config takes the place of the topic. -/
theorem create_relay_topic (hother : options.SetsNoOther) :
    (Waku.create pubsub libp2p options : Waku β κ ρ).relay.pubSubTopic =
      if options.pubsub.pubSubTopic = .undefined then Store.defaultPubSubTopic
      else options.topic := by
  unfold Waku.create WakuRelay.new CreateOptions.relayTopic CreateOptions.topic stringOr
  cases hfield : options.pubsub.pubSubTopic with
  | absent =>
    cases options.pubSubTopic with
    | none => rfl
    | some t => by_cases h : t = "" <;> simp [h, OptField.assign, OptField.get]
  | undefined =>
    cases options.pubSubTopic with
    | none => rfl
    | some t => by_cases h : t = "" <;> simp [h, OptField.assign, OptField.get]
  | value t => exact absurd hfield (hother t)

theorem pushed_topic {chance : Store.Chance} {streams : LightPush.Streams} {message : WakuMessage}
    {opts : LightPush.PushOptions} {pushed : LightPush.PushRPC}
    {lightPush : LightPush.WakuLightPush} (hopts : opts.pubSubTopic = none)
    (hpushed : (lightPush.push chance streams message opts).query = some pushed) :
    pushed.request.map LightPush.PushRequest.pubSubTopic = some lightPush.pubSubTopic := by
  obtain ⟨_, rfl⟩ := LightPush.push_query_iff.mp hpushed
  simp only [LightPush.createRequest, LightPush.WakuLightPush.topicFor, hopts, stringOr,
    Option.map_some]

/-- An explicit `undefined` takes the topic out of the query. -/
theorem asked_topic {c : Store.Call} {asked : Store.HistoryRPC} (hasked : Store.Sends c asked) :
    asked.query.bind Store.HistoryQuery.pubSubTopic =
      c.options.pubSubTopic.assign c.store.pubSubTopic := by
  obtain ⟨_, _, _, _, _, _, rfl, _⟩ := hasked
  rfl

theorem oneTopic_iff (hother : options.SetsNoOther) {node : Waku β κ ρ}
    (hnode : node = .create pubsub libp2p options) {codec : Proto.Codec} {sent message : WakuMessage}
    {chance : Store.Chance} {streams : LightPush.Streams} {opts : LightPush.PushOptions}
    {pushed : LightPush.PushRPC} (hopts : opts.pubSubTopic = none)
    (hpushed : (node.lightPush.push chance streams message opts).query = some pushed)
    {c : Store.Call} {asked : Store.HistoryRPC} (hstore : c.store = node.store)
    (hcall : ∀ topic, c.options.pubSubTopic ≠ .value topic) (hasked : Store.Sends c asked) :
    OneTopic options.topic (node.relay.send codec sent) pushed asked ↔
      options.topic = Store.defaultPubSubTopic ∧ c.options.pubSubTopic = .absent := by
  subst hnode
  have hpush := pushed_topic hopts hpushed
  have hask := asked_topic hasked
  rw [create_lightPush_topic] at hpush
  rw [hstore, create_store_topic] at hask
  constructor
  · intro h
    have hdefault := h.lightPush
    rw [hpush, Option.some.injEq] at hdefault
    refine ⟨hdefault.symm, ?_⟩
    have hquery := h.store
    cases hfield : c.options.pubSubTopic with
    | absent => rfl
    | undefined =>
      rw [hask, hfield] at hquery
      cases hquery
    | value topic => exact absurd hfield (hcall topic)
  · rintro ⟨hdefault, habsent⟩
    refine ⟨?_, ?_, ?_⟩
    · rw [WakuRelay.send, create_relay_topic hother, hdefault, ite_self]
    · rw [hpush, hdefault]
    · rw [hask, habsent]
      rfl

end

namespace Custom

def message : WakuMessage := ⟨⟨some [1], some "/hello", some 0, some 0⟩, none, none⟩

/-- One peer that serves both protocols. -/
def libp2p : Store.Libp2p where
  peerStore := [⟨"peer", [Store.storeCodec, LightPush.lightPushCodec]⟩]
  connectionManager _ := some ⟨fun _ => .ok (), fun _ rpc => .ok ⟨rpc.requestId, none, none⟩⟩

def streams : LightPush.Streams where
  newStream _ := .ok ()
  exchange _ rpc := .ok ⟨rpc.requestId, none, some ⟨true, ""⟩⟩

def node (pubSubTopic : Option Topic) : Waku (Bool × OrdSet Topic) Nat Nat :=
  .create .standard libp2p ⟨pubSubTopic, ⟨.absent⟩⟩

def pushed (pubSubTopic : Option Topic) : LightPush.PushRPC :=
  LightPush.createRequest "request" message (node pubSubTopic).lightPush.pubSubTopic

def call (pubSubTopic : Option Topic) : Store.Call :=
  ⟨.transparent, .node, (node pubSubTopic).store, ["/hello"], .none, .inTurn⟩

theorem sends (pubSubTopic : Option Topic) :
    Store.Sends (call pubSubTopic) ((call pubSubTopic).query 0 none) := by
  have hlibp2p : (call pubSubTopic).store.libp2p = libp2p := by
    unfold call node Waku.create Store.WakuStore.new
    simp only
    split
    · split <;> rfl
    · rfl
  refine ⟨⟨fun _ => .ok (), fun _ rpc => .ok ⟨rpc.requestId, none, none⟩⟩, 0, .init, ?_, .refl, rfl,
    rfl, rfl⟩
  rw [hlibp2p]
  rfl

end Custom

theorem oneTopic_default :
    OneTopic Store.defaultPubSubTopic
      ((Custom.node none).relay.send (Proto.wireCodec .strict) Custom.message) (Custom.pushed none)
      ((Custom.call none).query 0 none) := by
  have hpushed : ((Custom.node none).lightPush.push .inTurn Custom.streams Custom.message
      ⟨none, none⟩).query = some (Custom.pushed none) := rfl
  refine (oneTopic_iff ?_ rfl rfl hpushed rfl ?_ (Custom.sends none)).mpr ⟨rfl, rfl⟩
  · rintro _ ⟨⟩
  · rintro _ ⟨⟩

/-- The light push of a node with a topic of its own goes to the default one. -/
theorem lightPush_keeps_default :
    ((Custom.node (some "/waku/2/custom/proto")).relay.send (Proto.wireCodec .strict)
        Custom.message).1 = "/waku/2/custom/proto" ∧
      ((Custom.node (some "/waku/2/custom/proto")).lightPush.push .inTurn Custom.streams
        Custom.message ⟨none, none⟩).query = some (Custom.pushed (some "/waku/2/custom/proto")) ∧
      (Custom.pushed (some "/waku/2/custom/proto")).request.map
        LightPush.PushRequest.pubSubTopic = some Store.defaultPubSubTopic ∧
      Store.Sends (Custom.call (some "/waku/2/custom/proto"))
        ((Custom.call (some "/waku/2/custom/proto")).query 0 none) ∧
      ¬ OneTopic "/waku/2/custom/proto"
        ((Custom.node (some "/waku/2/custom/proto")).relay.send (Proto.wireCodec .strict)
          Custom.message)
        (Custom.pushed (some "/waku/2/custom/proto"))
        ((Custom.call (some "/waku/2/custom/proto")).query 0 none) := by
  refine ⟨by decide, rfl, by decide, Custom.sends _, fun h => ?_⟩
  exact absurd h.lightPush (by decide)

end Node
end JsWaku
