import JsWaku.Message.WakuMessage
import JsWaku.Store.QueryHistory

/-!
# JsWaku.LightPush.Push

`lib/waku_light_push`: handing a message to one peer and waiting for its answer.

* `push`     — the call: the request it made, if it came to that, and what it returned.
* `push_throws_iff` — a call throws before it makes the request, never after.
* `push_response_iff` — a response returned is the one the peer gave.
-/

namespace JsWaku
namespace LightPush

open Js

def lightPushCodec : String := "/vac/waku/lightpush/2.0.0-beta1"

structure PushRequest where
  pubSubTopic : String
  message : Option Proto.WakuMessage

structure PushResponse where
  isSuccess : Bool
  info : String
  deriving DecidableEq

structure PushRPC where
  requestId : String
  request : Option PushRequest
  response : Option PushResponse

/-- `requestId` is what `uuid()` draws. -/
def createRequest (requestId : String) (message : WakuMessage) (pubSubTopic : String) : PushRPC :=
  ⟨requestId, some ⟨pubSubTopic, some message.proto⟩, none⟩

structure WakuLightPush where
  libp2p : Store.Libp2p
  pubSubTopic : String

/-- An option that is `undefined` is the same as none. -/
structure PushOptions where
  peerId : Option Store.PeerId
  pubSubTopic : Option String

/-- The streams of the protocol. `exchange` covers encoding the request, sending it, and decoding the
reply. -/
structure Streams where
  newStream : Store.PeerId → Except Thrown Unit
  exchange : Store.PeerId → PushRPC → Except Thrown PushRPC

structure Pushed where
  query : Option PushRPC
  result : Except Thrown (Option PushResponse)

namespace WakuLightPush

def new (libp2p : Store.Libp2p) (pubSubTopic : Option String) : WakuLightPush :=
  ⟨libp2p, stringOr pubSubTopic Store.defaultPubSubTopic⟩

variable (lightPush : WakuLightPush) (chance : Store.Chance) (streams : Streams)

def choosePeer (peerId : Option Store.PeerId) : Except Thrown (Option Store.Peer) :=
  match peerId with
  | some id =>
    match lightPush.libp2p.peerStore.find? (·.id = id) with
    | none => .error (.text "Peer is unknown")
    | some peer => .ok (some peer)
  | none =>
    .ok (Store.selectRandomPeer chance (Store.getPeersForProtocol lightPush.libp2p lightPushCodec))

def openStream (peerId : Option Store.PeerId) : Except Thrown Store.Peer := do
  match ← lightPush.choosePeer chance peerId with
  | none => .error (.text "No peer available")
  | some peer =>
    if peer.protocols.contains lightPushCodec then
      match lightPush.libp2p.connectionManager peer.id with
      | none => .error (.text "Failed to get a connection to the peer")
      | some _ => do
        streams.newStream peer.id
        return peer
    else .error (.text "Peer does not register waku light push protocol")

def topicFor (opts : PushOptions) : String := stringOr opts.pubSubTopic lightPush.pubSubTopic

/-- What goes wrong once the stream is open is logged, and `null` is returned. -/
def push (message : WakuMessage) (opts : PushOptions) : Pushed :=
  match lightPush.openStream chance streams opts.peerId with
  | .error e => ⟨none, .error e⟩
  | .ok peer =>
    let query := createRequest (chance.uuid 0) message (lightPush.topicFor opts)
    ⟨some query, .ok ((streams.exchange peer.id query).toOption.bind PushRPC.response)⟩

end WakuLightPush

section

variable {lightPush : WakuLightPush} {chance : Store.Chance} {streams : Streams}
  {message : WakuMessage} {opts : PushOptions}

/-- The request is made exactly when a stream was opened. -/
theorem push_query_iff {query : PushRPC} :
    (lightPush.push chance streams message opts).query = some query ↔
      (∃ peer, lightPush.openStream chance streams opts.peerId = .ok peer) ∧
        query = createRequest (chance.uuid 0) message (lightPush.topicFor opts) := by
  unfold WakuLightPush.push
  cases lightPush.openStream chance streams opts.peerId with
  | error e => simp
  | ok peer => simp [eq_comm]

theorem push_throws_iff : Throws (lightPush.push chance streams message opts).result ↔
    (lightPush.push chance streams message opts).query = none := by
  unfold WakuLightPush.push
  cases lightPush.openStream chance streams opts.peerId with
  | error e => simp [throws_error]
  | ok peer => simp

theorem push_response_iff {response : PushResponse} :
    (lightPush.push chance streams message opts).result = .ok (some response) ↔
      ∃ peer query reply, lightPush.openStream chance streams opts.peerId = .ok peer ∧
        (lightPush.push chance streams message opts).query = some query ∧
        streams.exchange peer.id query = .ok reply ∧ reply.response = some response := by
  unfold WakuLightPush.push
  cases lightPush.openStream chance streams opts.peerId with
  | error e => simp
  | ok peer =>
    cases h : streams.exchange peer.id
      (createRequest (chance.uuid 0) message (lightPush.topicFor opts)) <;> simp [h, Except.toOption]

end

end LightPush
end JsWaku
