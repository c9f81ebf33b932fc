import JsWaku.Js.Utf8
import JsWaku.Message.RoundTrip

/-!
# JsWaku.Message.Text

Messages whose payload is text (`fromUtf8String` and `payloadAsUtf8` of `waku_message/index.ts`).

* `text_decode_encode` — a text that is sent, encrypted or not, is read as it was written, except
  that surrogates without a partner are replaced.
* `text_repost_iff`    — a payload that is read as text and made a message again is the same bytes
  exactly if it was text.
-/

namespace JsWaku

open Js Version1 SymmetricCrypto

def fromUtf8String (libs : Libs) (rt : Runtime) (draws : Draws) (utf8 : JsString)
    (contentTopic : String) (opts : Option Options) : Except Thrown WakuMessage :=
  fromBytes libs rt draws (encodeUtf8 utf8) contentTopic opts

def WakuMessage.payloadAsUtf8 (m : WakuMessage) : JsString :=
  match m.payload with
  | none => []
  | some payload => decodeUtf8 payload

section

variable {libs : Libs} {codec : Proto.Codec} {rt : Runtime} {draws : Draws} {m : WakuMessage}
  {contentTopic : String} {opts : Option Options}

/-- A payload is in the clear, or in an envelope that was encoded. -/
theorem sealed_cases {payload cipher : Bytes} {opts : Options} {sig : Option Signature}
    {version : UInt32} (h : Sealed libs rt draws payload opts cipher sig version) :
    (¬ opts.encrypts ∧ cipher = payload ∧ sig = none ∧ version = 0) ∨
    opts.encrypts ∧ version = 1 ∧
      ∃ enc, clearEncode libs draws.randomBytes payload opts.sigPrivKey = .ok enc := by
  cases h with
  | clear hpk hsym => exact .inl ⟨by simp [Options.encrypts, hpk, hsym], rfl, rfl, rfl⟩
  | asymmetric hpk _ henc _ => exact .inr ⟨.inl (by rw [hpk]; rfl), rfl, _, henc⟩
  | symmetric _ hsym henc _ => exact .inr ⟨.inr (by rw [hsym]; rfl), rfl, _, henc⟩

/-- Payload and content topic, whatever was done to the payload on the way. -/
theorem payload_decode_encode (hlibs : libs.Lawful) {payload : Bytes}
    (hlen : payload.length < 2 ^ 24)
    (hm : fromBytes libs rt draws payload contentTopic opts = .ok m)
    (hcodec : codec.Undoes m.proto) :
    ∃ r : WakuMessage, r.payload = some payload ∧ r.contentTopic = some contentTopic ∧
      ∀ keys, HoldsKey libs (opts.getD Options.none) (m.payload.getD []) keys →
        decode libs codec rt (m.encode codec) (some keys) = .ok (some r) := by
  obtain ⟨timestamp, cipher, sig, version, _, hs, rfl⟩ := fromBytes_cases hm
  have hdecode : ∀ keys : Option (List Bytes), decode libs codec rt (WakuMessage.encode codec
      ⟨⟨some cipher, some contentTopic, some version, some timestamp.toSeconds⟩,
        sig.map Signature.publicKey, sig.map Signature.signature⟩) keys =
      decodeProto libs rt
        ⟨some cipher, some contentTopic, some version, some timestamp.toSeconds⟩ keys := by
    intro keys
    rw [decode, WakuMessage.encode, hcodec, ok_bind]
  simp only [hdecode]
  rcases sealed_cases hs with ⟨_, rfl, rfl, rfl⟩ | ⟨_, rfl, enc, henc⟩
  · exact ⟨_, rfl, rfl, fun keys _ => decodeProto_sealed_clear keys⟩
  · obtain ⟨r, hr, _, hall⟩ :=
      decodeProto_sealed hlibs contentTopic timestamp.toSeconds hlen henc hs
    exact ⟨r, by rw [WakuMessage.payload, hr], by rw [WakuMessage.contentTopic, hr], hall⟩

theorem text_decode_encode (hlibs : libs.Lawful) {text : JsString}
    (hlen : (encodeUtf8 text).length < 2 ^ 24)
    (hm : fromUtf8String libs rt draws text contentTopic opts = .ok m)
    (hcodec : codec.Undoes m.proto) :
    ∃ r : WakuMessage, r.payloadAsUtf8 = toWellFormed text ∧
      (r.payloadAsUtf8 = text ↔ IsWellFormed text) ∧
      ∀ keys, HoldsKey libs (opts.getD Options.none) (m.payload.getD []) keys →
        decode libs codec rt (m.encode codec) (some keys) = .ok (some r) := by
  obtain ⟨r, hpayload, _, hall⟩ := payload_decode_encode hlibs hlen hm hcodec
  have htext : r.payloadAsUtf8 = toWellFormed text := by
    rw [WakuMessage.payloadAsUtf8, hpayload]
    exact decodeUtf8_encodeUtf8 text
  exact ⟨r, htext, by rw [htext, toWellFormed_eq_iff], hall⟩

theorem text_repost_iff {payload : Bytes} {m' : WakuMessage} (hpayload : m.payload = some payload)
    (hclear : ¬ (opts.getD Options.none).encrypts)
    (hm : fromUtf8String libs rt draws m.payloadAsUtf8 contentTopic opts = .ok m') :
    m'.payload = m.payload ↔ IsUtf8 payload := by
  have htext : m.payloadAsUtf8 = decodeUtf8 payload := by
    rw [WakuMessage.payloadAsUtf8, hpayload]
  obtain ⟨timestamp, cipher, sig, version, _, hs, rfl⟩ := fromBytes_cases hm
  obtain ⟨_, rfl, _, _⟩ := (sealed_cases hs).resolve_right fun h => hclear h.1
  rw [hpayload, ← encodeUtf8_decodeUtf8_iff, ← htext]
  exact Option.some_inj

end

namespace Hello

def text : JsString := [104, 105]

theorem encode_text : encodeUtf8 text = payload := by decide

theorem fromUtf8String_text : fromUtf8String Libs.transparent .node draws text "/hello"
    (some options) = .ok ⟨proto, none, none⟩ := by
  rw [fromUtf8String, encode_text]
  exact fromBytes_payload

end Hello

theorem text_decode_encode_hello : ∃ r : WakuMessage, r.payloadAsUtf8 = [104, 105] ∧
    decode Libs.transparent Hello.codec .node (Hello.codec.encode Hello.proto)
      (some [Hello.stranger, Hello.key]) = .ok (some r) := by
  obtain ⟨r, htext, _, hall⟩ := text_decode_encode Libs.transparent_lawful (by decide)
    Hello.fromUtf8String_text Hello.codec_undoes
  exact ⟨r, htext, hall _ Hello.holdsKey⟩

/-- A byte that begins no character comes back as three. -/
theorem text_repost_iff_stray : ∃ m' : WakuMessage,
    fromUtf8String Libs.transparent .node Hello.draws
      (WakuMessage.payloadAsUtf8 ⟨⟨some [0xFF], none, none, none⟩, none, none⟩) "/hello" none =
        .ok m' ∧ m'.payload = some [0xEF, 0xBF, 0xBD] ∧
    (m'.payload = some [0xFF] ↔ IsUtf8 [0xFF]) :=
  ⟨_, rfl, by decide, @text_repost_iff Libs.transparent .node Hello.draws _ "/hello" none [0xFF] _ rfl
    (fun h => h.elim Bool.false_ne_true Bool.false_ne_true) rfl⟩

end JsWaku
