import JsWaku.LightPush.Wire

/-!
# JsWaku.LightPush.Transport

`push` over bytes, as `JsWaku.Store.Transport` has `queryHistory`.

* `Transport.Serves` — what comes back is the reply of a peer, in the peer's version of the protocol.
* `push_serving` — the call then is the one that hands the peer the message itself.
* `push_of_cut`  — a reply cut short on the way is no response, and no exception either.
-/

namespace JsWaku
namespace LightPush

open Js Js.Protobuf Proto

structure Transport where
  newStream : Store.PeerId → Except Thrown Unit
  pipe : Store.PeerId → Bytes → Except Thrown Bytes

section

variable (strings : StringReader)

def Transport.streams (t : Transport) : Streams where
  newStream := t.newStream
  exchange peer rpc := do
    let res ← t.pipe peer rpc.encode
    PushRPC.decode strings res

/-- Peers that take the bytes of a request for the request, and write their reply with fields of
their own besides the ones of this version. -/
structure Transport.Serves (t : Transport) (peers : Streams) : Prop where
  newStream : t.newStream = peers.newStream
  rejects : ∀ {peer rpc e}, rpc.encode.length < 2 ^ 32 → peers.exchange peer rpc = .error e →
    t.pipe peer rpc.encode = .error e
  replies : ∀ {peer rpc reply}, rpc.encode.length < 2 ^ 32 → peers.exchange peer rpc = .ok reply →
    reply.encode.length < 2 ^ 32 ∧ ∃ b, (PushRPC.decoder strings).Extends reply.encode b ∧
      t.pipe peer rpc.encode = .ok b

end

section

variable {strings : StringReader} {lightPush : WakuLightPush} {chance : Store.Chance}
  {message : WakuMessage} {opts : PushOptions}

theorem exchange_serving {t : Transport} {peers : Streams} {peer : Store.PeerId} {rpc : PushRPC}
    (ht : t.Serves strings peers) (hlen : rpc.encode.length < 2 ^ 32) :
    (t.streams strings).exchange peer rpc = peers.exchange peer rpc := by
  cases hexchange : peers.exchange peer rpc with
  | error e => simp only [Transport.streams, ht.rejects hlen hexchange, error_bind]
  | ok reply =>
    obtain ⟨hreply, b, hextends, hpipe⟩ := ht.replies hlen hexchange
    simp only [Transport.streams, hpipe, ok_bind, PushRPC.decode, Decoder.extends_decode hextends]
    exact PushRPC.decode_encode strings hreply

theorem push_serving {t : Transport} {peers : Streams} (ht : t.Serves strings peers)
    (hlen : (createRequest (chance.uuid 0) message (lightPush.topicFor opts)).encode.length <
      2 ^ 32) :
    lightPush.push chance (t.streams strings) message opts =
      lightPush.push chance peers message opts := by
  have hstream : lightPush.openStream chance (t.streams strings) opts.peerId =
      lightPush.openStream chance peers opts.peerId := by
    have hnew : (t.streams strings).newStream = peers.newStream := ht.newStream
    simp only [WakuLightPush.openStream, hnew]
  unfold WakuLightPush.push
  rw [hstream]
  cases lightPush.openStream chance peers opts.peerId with
  | error e => rfl
  | ok peer =>
    simp only
    rw [exchange_serving ht hlen]

end

namespace Accepted

def strings : StringReader := .ofText .strict

def libp2p : Store.Libp2p where
  peerStore := [⟨"push", [lightPushCodec]⟩]
  connectionManager _ := some ⟨fun _ => .ok (), fun _ rpc => .ok ⟨rpc.requestId, none, none⟩⟩

def lightPush : WakuLightPush := .new libp2p none

def message : WakuMessage := ⟨⟨some [1], some "/hello", none, none⟩, none, none⟩

def reply : PushRPC := ⟨"", none, some ⟨true, ""⟩⟩

def peers : Streams := ⟨fun _ => .ok (), fun _ _ => .ok reply⟩

/-- A field of number 15 in front of the reply. -/
def transport : Transport where
  newStream _ := .ok ()
  pipe _ _ := .ok (varint 120 ++ varint 7 ++ reply.encode)

def breaking : Transport := ⟨fun _ => .ok (), fun _ _ => .ok [26, 2, 8]⟩

theorem reply_encode : reply.encode = [26, 2, 8, 1] := by
  simp only [reply, PushRPC.encode, PushResponse.encode, Option.elim, boolBytes]
  simp [lenPrefixed, varint]

theorem serves : transport.Serves strings peers where
  newStream := rfl
  rejects := by rintro peer rpc e _ ⟨⟩
  replies := by
    rintro peer rpc reply' _ ⟨⟩
    have hlen : reply.encode.length < 2 ^ 32 := by rw [reply_encode]; decide
    refine ⟨hlen, _, ?_, rfl⟩
    exact .unknown (by decide) (fun _ => rfl) (.varint 7) (PushRPC.acts_encode strings hlen).extends

theorem request_length :
    (createRequest "request" message Store.defaultPubSubTopic).encode.length < 2 ^ 32 := by
  have hid : (utf8 "request").length = 7 := by decide
  have htopic : (utf8 Store.defaultPubSubTopic).length = 26 := by decide
  have hcontent : (utf8 "/hello").length = 6 := by decide
  simp [createRequest, message, PushRPC.encode, PushRequest.encode, encodeMessage]
  split <;> simp [hid, htopic, hcontent, lenPrefixed, varint]

end Accepted

theorem push_serving_accepted : (Accepted.lightPush.push Store.Chance.inTurn
    (Accepted.transport.streams Accepted.strings) Accepted.message ⟨none, none⟩).result =
      .ok (some ⟨true, ""⟩) := by
  rw [push_serving Accepted.serves Accepted.request_length]
  rfl

/-! ## Replies cut short -/

section

variable {strings : StringReader} {lightPush : WakuLightPush} {chance : Store.Chance}
  {message : WakuMessage} {opts : PushOptions}

theorem push_of_cut {t : Transport} {peer : Store.Peer} {reply : PushRPC} {cut : Bytes}
    (hstream : lightPush.openStream chance (t.streams strings) opts.peerId = .ok peer)
    (hlen : reply.encode.length < 2 ^ 32) (hcut : cut <+: reply.encode) (hne : cut ≠ reply.encode)
    (hpipe : t.pipe peer.id
      (createRequest (chance.uuid 0) message (lightPush.topicFor opts)).encode = .ok cut) :
    (lightPush.push chance (t.streams strings) message opts).result = .ok none := by
  simp only [WakuLightPush.push, hstream]
  simp only [Transport.streams, hpipe, ok_bind]
  cases hdecode : PushRPC.decode strings cut with
  | error e => rfl
  | ok got =>
    have hnone := pushRPC_cut strings hlen hcut hne hdecode
    simp [Except.toOption, hnone]

end

/-- A reply without its last byte. -/
theorem push_of_cut_breaking : (Accepted.lightPush.push Store.Chance.inTurn
    (Accepted.breaking.streams Accepted.strings) Accepted.message ⟨none, none⟩).result =
      .ok none := by
  have hlen : Accepted.reply.encode.length < 2 ^ 32 := by rw [Accepted.reply_encode]; decide
  have hcut : [26, 2, 8] <+: Accepted.reply.encode := ⟨[1], by rw [Accepted.reply_encode]; rfl⟩
  have hne : [26, 2, 8] ≠ Accepted.reply.encode := by rw [Accepted.reply_encode]; decide
  exact push_of_cut rfl hlen hcut hne rfl

end LightPush
end JsWaku
