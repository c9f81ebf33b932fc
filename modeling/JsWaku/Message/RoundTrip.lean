import JsWaku.Message.WakuMessage
import JsWaku.Message.Wire

/-!
# JsWaku.Message.RoundTrip

Messages there and back.

* `decode_encode_fromBytes` — a message made by `fromBytes`, encoded and decoded with any key list
  that holds its key, comes back with its clear payload and its signer.
* `reencode_iff` — a message received keeps its meaning when encoded again exactly when it was not
  decrypted on the way in.
* `fromBytes_protects` — what a key that is passed to `fromBytes` and is not the empty string
  guarantees.
-/

namespace JsWaku

open Js Version1 SymmetricCrypto

/-- AES-GCM finds a wrong tag under `key`. -/
def GcmRejects (gcm : Gcm) (key cipher : Bytes) : Prop :=
  ∀ cipherText tag iv, cipher = cipherText ++ tag ++ iv → tag.length = tagSize →
    iv.length = ivSize → tag ≠ gcm.tag key iv cipherText

/-- Neither scheme decrypts `cipher` under `key`. -/
structure Stranger (libs : Libs) (cipher key : Bytes) : Prop where
  gcm : GcmRejects libs.gcm key cipher
  ecies : Throws (libs.ecies.decrypt key cipher)

/-- The key list holds the key a message was encrypted for, wherever in the list and however
often, and every other key in it is a stranger to the cipher text. -/
inductive HoldsKey (libs : Libs) (opts : Options) (cipher : Bytes) (keys : List Bytes) : Prop where
  | clear : given opts.encPublicKey = none → given opts.symKey = none →
      HoldsKey libs opts cipher keys
  | asymmetric {key : BytesOrHex} {privKey : Bytes} : given opts.encPublicKey = some key →
      getPublicKey libs privKey = .ok (hexToBuf key) → privKey ∈ keys →
      GcmRejects libs.gcm privKey cipher →
      (∀ k ∈ keys, k ≠ privKey → Stranger libs cipher k) → HoldsKey libs opts cipher keys
  | symmetric {key : BytesOrHex} : given opts.encPublicKey = none → given opts.symKey = some key →
      hexToBuf key ∈ keys → (∀ k ∈ keys, k ≠ hexToBuf key → Stranger libs cipher k) →
      HoldsKey libs opts cipher keys

section

variable {libs : Libs} {codec : Proto.Codec} {rt : Runtime} {draws : Draws}

theorem decryptSymmetric_rejects (rt : Runtime) {key cipher : Bytes} (hlen : 28 ≤ cipher.length)
    (h : GcmRejects libs.gcm key cipher) :
    Throws (decryptSymmetric (symmetric libs.gcm rt) cipher (.bytes key)) := by
  obtain ⟨cipherText, tag, iv, rfl, htag, hiv⟩ := split_long hlen
  exact (decryptSymmetric_long rt htag hiv).2 (h _ _ _ rfl htag hiv)

theorem tryDecrypt_stranger {key cipher : Bytes} (hlen : 28 ≤ cipher.length)
    (h : Stranger libs cipher key) : tryDecrypt libs rt cipher key = none := by
  obtain ⟨e, he⟩ := decryptSymmetric_rejects rt hlen h.gcm
  obtain ⟨e', he'⟩ := h.ecies
  simp [tryDecrypt, decryptAsymmetric, he, he']

/-- ECIES is tried once AES-GCM has failed. -/
theorem tryDecrypt_asymmetric {key cipher dec : Bytes} (hlen : 28 ≤ cipher.length)
    (hgcm : GcmRejects libs.gcm key cipher) (h : libs.ecies.decrypt key cipher = .ok dec) :
    tryDecrypt libs rt cipher key = some dec := by
  obtain ⟨e, he⟩ := decryptSymmetric_rejects rt hlen hgcm
  simp [tryDecrypt, decryptAsymmetric, he, h]

/-- `decryptSymmetric` undoes `encryptSymmetric`. -/
theorem decryptSymmetric_seal {key iv data : Bytes} (hkey : acceptsKey rt key)
    (hiv : iv.length = ivSize) :
    decryptSymmetric (symmetric libs.gcm rt)
      (libs.gcm.ctr key iv data ++ libs.gcm.tag key iv (libs.gcm.ctr key iv data) ++ iv)
      (.bytes key) = .ok data := by
  rw [(decryptSymmetric_long rt (libs.gcm.tag_length _ _ _) hiv).1 hkey rfl, libs.gcm.ctr_ctr]

theorem seal_length (gcm : Gcm) (key data : Bytes) {iv : Bytes} (hiv : iv.length = ivSize) :
    28 ≤ (gcm.ctr key iv data ++ gcm.tag key iv (gcm.ctr key iv data) ++ iv).length := by
  simp [gcm.tag_length, hiv, ivSize]

/-- The search of `decodeProto` finds the envelope `fromBytes` sealed, in any list that holds its
key. -/
theorem firstDecrypted_sealed (hlibs : libs.Lawful) {payload cipher : Bytes} {opts : Options}
    {sig : Option Signature} {keys : List Bytes}
    (hs : Sealed libs rt draws payload opts cipher sig 1) (hk : HoldsKey libs opts cipher keys) :
    ∃ enc, clearEncode libs draws.randomBytes payload opts.sigPrivKey = .ok enc ∧ sig = enc.sig ∧
      firstDecrypted libs rt cipher keys = some enc.payload := by
  generalize hversion : (1 : UInt32) = version at hs
  cases hs with
  | clear hpk hsym => cases hversion
  | @asymmetric key enc cipher hpk hsym henc hc =>
    refine ⟨enc, henc, rfl, ?_⟩
    cases hk with
    | clear hpk' _ => rw [hpk] at hpk'; cases hpk'
    | symmetric hpk' _ => rw [hpk] at hpk'; cases hpk'
    | @asymmetric key' privKey hpk' hpub hmem hgcm hother =>
      rw [hpk] at hpk'; cases hpk'
      have hlen : 28 ≤ cipher.length := by
        rw [hlibs.ecies.cipher_length hc]; unfold eciesOverhead; omega
      have hdec := hlibs.ecies.decrypt_encrypt hpub hc
      exact firstDecrypted_of_unique hmem (tryDecrypt_asymmetric hlen hgcm hdec)
        fun k hk hne => tryDecrypt_stranger hlen (hother k hk hne)
  | @symmetric key enc hpk hsym henc hkey =>
    refine ⟨enc, henc, rfl, ?_⟩
    cases hk with
    | clear _ hsym' => rw [hsym] at hsym'; cases hsym'
    | asymmetric hpk' => rw [hpk] at hpk'; cases hpk'
    | @symmetric key' _ hsym' hmem hother =>
      rw [hsym] at hsym'; cases hsym'
      have hlen := seal_length libs.gcm (hexToBuf key) enc.payload draws.iv_length
      refine firstDecrypted_of_unique hmem ?_ fun k hk hne =>
        tryDecrypt_stranger hlen (hother k hk hne)
      rw [tryDecrypt, decryptSymmetric_seal hkey draws.iv_length]

/-- A symmetric message, spelt out. -/
theorem fromBytes_symmetric {payload key : Bytes} {contentTopic : String} {sigPrivKey : Option Bytes}
    {enc : Clear} (hkey : acceptsKey rt key)
    (henc : clearEncode libs draws.randomBytes payload sigPrivKey = .ok enc) :
    fromBytes libs rt draws payload contentTopic
        (some ⟨.absent, none, some (.bytes key), sigPrivKey⟩) =
      .ok ⟨⟨some (libs.gcm.ctr key draws.iv enc.payload ++
          libs.gcm.tag key draws.iv (libs.gcm.ctr key draws.iv enc.payload) ++ draws.iv),
          some contentTopic, some 1, some draws.now.toSeconds⟩,
        enc.sig.map Signature.publicKey, enc.sig.map Signature.signature⟩ := by
  have hseal := @encryptSymmetric_accepts libs rt draws enc.payload (.bytes key) hkey
  simp only [hexToBuf] at hseal
  simp [fromBytes, encryptPayload, given, Option.filter, BytesOrHex.truthy, henc, hseal,
    OptField.assign, pure, Except.pure]

/-- A key whose tag over the cipher text differs does not open it. -/
theorem gcmRejects_seal {key k iv cipherText : Bytes} (hiv : iv.length = ivSize)
    (htag : libs.gcm.tag key iv cipherText ≠ libs.gcm.tag k iv cipherText) :
    GcmRejects libs.gcm k (cipherText ++ libs.gcm.tag key iv cipherText ++ iv) := by
  intro cipherText' tag' iv' h htag' hiv'
  obtain ⟨hcut, rfl⟩ := List.append_inj' h (by rw [hiv, hiv'])
  obtain ⟨rfl, rfl⟩ := List.append_inj' hcut (by rw [htag', libs.gcm.tag_length]; rfl)
  exact htag

end

namespace Hello

def draws : Draws := ⟨⟨0⟩, (List.replicate · 1), zeros 12, zeros_length 12, []⟩

def payload : Bytes := [104, 105]
def key : Bytes := List.replicate 32 3
def stranger : Bytes := List.replicate 32 7
def codec : Proto.Codec := Proto.wireCodec .strict
def options : Options := ⟨.absent, none, some (.bytes key), none⟩
def envelope : Bytes := bodyOf draws.randomBytes payload false

def cipher : Bytes :=
  envelope ++ Libs.transparent.gcm.tag key draws.iv envelope ++ draws.iv

def proto : Proto.WakuMessage := ⟨some cipher, some "/hello", some 1, some draws.now.toSeconds⟩

/-- `proto` once it has been decrypted. -/
def opened : Proto.WakuMessage := { proto with payload := some payload }

theorem clearEncode_payload :
    clearEncode Libs.transparent draws.randomBytes payload none = .ok ⟨envelope, none⟩ :=
  clearEncode_unsigned ⟨by decide, validateDataIntegrity_ones _⟩

theorem accepts_key : acceptsKey .node key := List.length_replicate

theorem fromBytes_payload :
    fromBytes Libs.transparent .node draws payload "/hello" (some options) =
      .ok ⟨proto, none, none⟩ :=
  fromBytes_symmetric accepts_key clearEncode_payload

theorem size_payload : getSizeOfPayloadSizeField payload = 1 := by
  rw [size_eq_log, Nat.log_of_lt (by decide)]

theorem envelope_head : envelope.head? = some 1 := by
  simp [envelope, bodyOf, envelopeBody, size_payload]

theorem proto_sized : proto.Sized := by
  refine ⟨?_, ?_⟩
  · rintro b ⟨⟩
    have hpad : paddingSize payload false ≤ 256 := Nat.sub_le _ _
    have hlen : payload.length = 2 := rfl
    simp only [cipher, envelope, bodyOf, envelopeBody, size_payload, draws, List.length_append,
      List.length_cons, List.length_replicate, Gcm.tag_length, zeros_length, leBytes_length]
    omega
  · rintro s ⟨⟩
    decide

theorem codec_undoes : codec.Undoes proto := Proto.wireCodec_undoes _ proto_sized

theorem stranger_cipher : Stranger Libs.transparent cipher stranger := by
  refine ⟨gcmRejects_seal rfl (by decide), ?_⟩
  have hne : cipher.take 65 ≠ 4 :: (stranger ++ zeros 32) := by
    intro h
    have := congrArg List.head? h
    simp [List.head?_take, cipher, List.head?_append, envelope_head] at this
  exact ⟨_, if_neg fun h => hne h.2⟩

theorem holdsKey : HoldsKey Libs.transparent options cipher [stranger, key] := by
  refine .symmetric rfl rfl (by simp [hexToBuf]) fun k hk hne => ?_
  simp only [List.mem_cons, List.not_mem_nil, or_false] at hk
  rcases hk with rfl | rfl
  · exact stranger_cipher
  · exact absurd rfl hne

theorem sealed_cipher : Sealed Libs.transparent .node draws payload options cipher none 1 :=
  @Sealed.symmetric Libs.transparent .node draws payload options (.bytes key) ⟨envelope, none⟩
    rfl rfl clearEncode_payload accepts_key

theorem clearDecode_envelope :
    clearDecode Libs.transparent envelope = .ok (some ⟨payload, none⟩) := by
  obtain ⟨⟨p, sig⟩, hdec, rfl, hsig⟩ :=
    clearDecode_clearEncode Libs.transparent_lawful.secp256k1 (by decide) clearEncode_payload
  rw [show sig = none from Option.map_eq_none_iff.mp hsig] at hdec
  exact hdec

theorem decodeProto_proto :
    decodeProto Libs.transparent .node proto (some [stranger, key]) =
      .ok (some ⟨opened, none, none⟩) := by
  obtain ⟨enc, henc, _, hfirst⟩ :=
    firstDecrypted_sealed Libs.transparent_lawful sealed_cipher holdsKey
  rw [show options.sigPrivKey = none from rfl, clearEncode_payload] at henc
  cases henc
  rw [decodeProto_encrypted rfl rfl hfirst, clearDecode_envelope]
  rfl

theorem decode_proto :
    decode Libs.transparent codec .node (codec.encode proto) (some [stranger, key]) =
      .ok (some ⟨opened, none, none⟩) := by
  rw [decode, codec_undoes, ok_bind, decodeProto_proto]

theorem opened_undoes : codec.Undoes opened :=
  Proto.wireCodec_undoes _ ⟨by rintro b ⟨⟩; decide, by rintro s ⟨⟩; decide⟩

theorem tryDecrypt_payload :
    ∀ k ∈ [stranger, key], tryDecrypt Libs.transparent .node payload k = none := by decide

def clear : Proto.WakuMessage := ⟨some payload, some "/hello", some 0, none⟩

theorem clear_undoes : codec.Undoes clear :=
  Proto.wireCodec_undoes _ ⟨by rintro b ⟨⟩; decide, by rintro s ⟨⟩; decide⟩

theorem decode_clear :
    decode Libs.transparent codec .node (codec.encode clear) (some []) =
      .ok (some ⟨clear, none, none⟩) := by
  rw [decode, clear_undoes, ok_bind]
  rfl

end Hello

/-! ## `fromBytes`, `encode`, `decode` -/

section

variable {libs : Libs} {codec : Proto.Codec} {rt : Runtime} {draws : Draws}

/-- Whether the options ask for encryption. -/
def Options.encrypts (opts : Options) : Prop :=
  (given opts.encPublicKey).isSome ∨ (given opts.symKey).isSome

/-- `r` is the message `m` with its payload in the clear and its signer. -/
structure Restored (libs : Libs) (payload : Bytes) (contentTopic : String) (opts : Options)
    (m r : WakuMessage) : Prop where
  payload : r.payload = some payload
  contentTopic : r.contentTopic = some contentTopic
  version : r.version = m.version
  timestamp : r.proto.timestamp = m.proto.timestamp
  signed : ∀ key, opts.encrypts → opts.sigPrivKey = some key →
    ∃ pk, getPublicKey libs key = .ok pk ∧ r.signaturePublicKey = some pk
  unsigned : ¬ opts.encrypts ∨ opts.sigPrivKey = none → r.signaturePublicKey = none

/-- Keys do not matter to a clear message. -/
theorem decodeProto_sealed_clear {payload : Bytes} {contentTopic : String} {t : Proto.Double}
    (keys : List Bytes) :
    decodeProto libs rt ⟨some payload, some contentTopic, some 0, some t⟩ (some keys) =
      .ok (some ⟨⟨some payload, some contentTopic, some 0, some t⟩, none, none⟩) :=
  decodeProto_clear rfl (by simp) _

/-- A sealed message opens to one and the same message under every list that holds its key. -/
theorem decodeProto_sealed (hlibs : libs.Lawful) (contentTopic : String) (t : Proto.Double)
    {payload cipher : Bytes} {opts : Options} {sig : Option Signature} {enc : Clear}
    (hlen : payload.length < 2 ^ 24)
    (henc : clearEncode libs draws.randomBytes payload opts.sigPrivKey = .ok enc)
    (hs : Sealed libs rt draws payload opts cipher sig 1) :
    ∃ r : WakuMessage,
      r.proto = ⟨some payload, some contentTopic, some 1, some t⟩ ∧
      r.signaturePublicKey = enc.sig.map Signature.publicKey ∧
      ∀ keys, HoldsKey libs opts cipher keys →
        decodeProto libs rt ⟨some cipher, some contentTopic, some 1, some t⟩ (some keys) =
          .ok (some r) := by
  obtain ⟨dec, hdec, hpay, hsig⟩ := clearDecode_clearEncode hlibs.secp256k1 hlen henc
  refine ⟨⟨⟨some dec.payload, some contentTopic, some 1, some t⟩,
    dec.sig.map Signature.publicKey, dec.sig.map Signature.signature⟩, by rw [hpay], hsig, ?_⟩
  intro keys hk
  obtain ⟨enc', henc', _, hfirst⟩ := firstDecrypted_sealed hlibs hs hk
  rw [henc] at henc'
  cases henc'
  rw [decodeProto_encrypted rfl rfl hfirst, hdec]
  rfl

theorem restored_of_proto {payload cipher : Bytes} {contentTopic : String} {opts : Options}
    {t : Proto.Double} {enc : Clear} {r : WakuMessage} {pk sg : Option Bytes}
    (hr : r.proto = ⟨some payload, some contentTopic, some 1, some t⟩)
    (hsig : r.signaturePublicKey = enc.sig.map Signature.publicKey) (hopts : opts.encrypts)
    (henc : clearEncode libs draws.randomBytes payload opts.sigPrivKey = .ok enc) :
    Restored libs payload contentTopic opts
      ⟨⟨some cipher, some contentTopic, some 1, some t⟩, pk, sg⟩ r := by
  refine ⟨?_, ?_, ?_, ?_, ?_, ?_⟩
  · rw [WakuMessage.payload, hr]
  · rw [WakuMessage.contentTopic, hr]
  · rw [WakuMessage.version, hr]; rfl
  · rw [hr]
  · intro key _ hkey
    rw [hkey] at henc
    obtain ⟨sig, hsome, hpk⟩ := clearEncode_sig henc
    exact ⟨sig.publicKey, hpk, by rw [hsig, hsome]; rfl⟩
  · rintro (hno | hnone)
    · exact absurd hopts hno
    · rw [hnone] at henc
      rw [hsig, clearEncode_sig henc]; rfl

/-- One message `r`, whatever the keys besides the right one and whatever their order. -/
theorem decode_encode_fromBytes (hlibs : libs.Lawful) {payload : Bytes} {contentTopic : String}
    {opts : Option Options} {m : WakuMessage} (hlen : payload.length < 2 ^ 24)
    (hm : fromBytes libs rt draws payload contentTopic opts = .ok m)
    (hcodec : codec.Undoes m.proto) :
    ∃ r, Restored libs payload contentTopic (opts.getD Options.none) m r ∧
      ∀ keys, HoldsKey libs (opts.getD Options.none) (m.payload.getD []) keys →
        decode libs codec rt (m.encode codec) (some keys) = .ok (some r) := by
  obtain ⟨timestamp, cipher, sig, version, _, hs, rfl⟩ := fromBytes_cases hm
  have hdecode : ∀ keys : Option (List Bytes), decode libs codec rt (WakuMessage.encode codec
      ⟨⟨some cipher, some contentTopic, some version, some timestamp.toSeconds⟩,
        sig.map Signature.publicKey, sig.map Signature.signature⟩) keys =
      decodeProto libs rt
        ⟨some cipher, some contentTopic, some version, some timestamp.toSeconds⟩ keys := by
    intro keys
    rw [decode, WakuMessage.encode, hcodec, ok_bind]
  simp only [hdecode]
  cases hs with
  | clear hpk hsym =>
    refine ⟨_, ?_, fun keys _ => decodeProto_sealed_clear keys⟩
    refine ⟨rfl, rfl, rfl, rfl, ?_, fun _ => rfl⟩
    intro key henc
    simp [Options.encrypts, hpk, hsym] at henc
  | @asymmetric key enc cipher hpk hsym henc hc =>
    obtain ⟨r, hr, hsig, hall⟩ :=
      decodeProto_sealed hlibs contentTopic timestamp.toSeconds hlen henc
        (.asymmetric hpk hsym henc hc)
    exact ⟨r, restored_of_proto hr hsig (.inl (by rw [hpk]; rfl)) henc, hall⟩
  | @symmetric key enc hpk hsym henc hkey =>
    obtain ⟨r, hr, hsig, hall⟩ :=
      decodeProto_sealed hlibs contentTopic timestamp.toSeconds hlen henc
        (.symmetric hpk hsym henc hkey)
    exact ⟨r, restored_of_proto hr hsig (.inr (by rw [hsym]; rfl)) henc, hall⟩

end

/-- Under two keys, the second of which opens it. -/
theorem decode_encode_fromBytes_hello : ∃ r : WakuMessage,
    fromBytes Libs.transparent .node Hello.draws Hello.payload "/hello" (some Hello.options) =
      .ok ⟨Hello.proto, none, none⟩ ∧
    r.payload = some [104, 105] ∧
    decode Libs.transparent Hello.codec .node (Hello.codec.encode Hello.proto)
      (some [Hello.stranger, Hello.key]) = .ok (some r) := by
  obtain ⟨r, hr, hall⟩ := decode_encode_fromBytes Libs.transparent_lawful (by decide)
    Hello.fromBytes_payload Hello.codec_undoes
  exact ⟨r, Hello.fromBytes_payload, hr.payload, hall _ Hello.holdsKey⟩

section

variable {libs : Libs} {codec : Proto.Codec} {rt : Runtime}

/-- `m`, received as `bytes`, keeps its meaning when encoded again, and does not carry the clear
payload of an encrypted message under its encrypted version. -/
structure ReencodePreserves (libs : Libs) (codec : Proto.Codec) (rt : Runtime) (bytes : Bytes)
    (keys : Option (List Bytes)) (m : WakuMessage) : Prop where
  same : ∃ m', decode libs codec rt (m.encode codec) keys = .ok (some m') ∧
    m'.payload = m.payload ∧ m'.contentTopic = m.contentTopic ∧ m'.version = m.version ∧
    m'.proto.timestamp = m.proto.timestamp ∧ m'.signaturePublicKey = m.signaturePublicKey
  sealed : ∀ p, codec.decode bytes = .ok p → p.version = some 1 →
    ∀ p', codec.decode (m.encode codec) = .ok p' → p'.version = some 1 → p'.payload ≠ m.payload

/-- `decodeProto` puts the clear payload into the protobuf object and leaves its version. -/
theorem reencode_iff {bytes : Bytes} {keys : Option (List Bytes)} {m : WakuMessage}
    {p : Proto.WakuMessage} (hp : codec.decode bytes = .ok p)
    (hm : decode libs codec rt bytes keys = .ok (some m)) (hcodec : codec.Undoes m.proto) :
    ReencodePreserves libs codec rt bytes keys m ↔ p.version ≠ some 1 := by
  rw [decode, hp, ok_bind] at hm
  rcases decodeProto_cases hm with ⟨hv, ⟨b, hb⟩, rfl⟩ | ⟨hv, b, hproto⟩
  · refine ⟨fun _ => hv, fun _ => ⟨⟨⟨p, none, none⟩, ?_, rfl, rfl, rfl, rfl, rfl⟩, ?_⟩⟩
    · rw [decode, WakuMessage.encode, hcodec]
      exact hm
    · intro q hq hq1
      rw [hp] at hq
      cases hq
      exact absurd hq1 hv
  · refine ⟨fun h => ?_, fun h => absurd hv h⟩
    exact absurd rfl (h.sealed p hp hv m.proto hcodec (by rw [hproto]; exact hv))

/-- With keys that reject the clear text, the message is lost on the way. -/
theorem decode_reencoded_lost {bytes b : Bytes} {keys : List Bytes} {m : WakuMessage}
    {p : Proto.WakuMessage} (hp : codec.decode bytes = .ok p) (hv : p.version = some 1)
    (hm : decode libs codec rt bytes (some keys) = .ok (some m)) (hcodec : codec.Undoes m.proto)
    (hb : m.payload = some b) (hkeys : ∀ k ∈ keys, tryDecrypt libs rt b k = none) :
    decode libs codec rt (m.encode codec) (some keys) = .ok none := by
  rw [decode, hp, ok_bind] at hm
  have hversion : m.proto.version = some 1 := by
    rcases decodeProto_cases hm with ⟨hv', _⟩ | ⟨_, _, hproto⟩
    · exact absurd hv hv'
    · rw [hproto]; exact hv
  have hfirst : firstDecrypted libs rt b keys = none := by
    rw [firstDecrypted, List.filterMap_eq_nil_iff.mpr hkeys]; rfl
  rw [WakuMessage.payload] at hb
  rw [decode, WakuMessage.encode, hcodec, ok_bind]
  simp only [decodeProto, hb, hversion, ite_true, hfirst]

end

/-- A clear message comes back from its own encoding. -/
theorem reencode_iff_clear :
    decode Libs.transparent Hello.codec .node (Hello.codec.encode Hello.clear) (some []) =
      .ok (some ⟨Hello.clear, none, none⟩) ∧
    (ReencodePreserves Libs.transparent Hello.codec .node (Hello.codec.encode Hello.clear) (some [])
      ⟨Hello.clear, none, none⟩ ↔ Hello.clear.version ≠ some 1) :=
  ⟨Hello.decode_clear, reencode_iff Hello.clear_undoes Hello.decode_clear Hello.clear_undoes⟩

/-- The encrypted greeting, received and encoded again: nobody can read it with the keys that
opened it, and everybody can read its payload. -/
theorem reencoded_hello_lost : ∃ m : WakuMessage,
    decode Libs.transparent Hello.codec .node (Hello.codec.encode Hello.proto)
      (some [Hello.stranger, Hello.key]) = .ok (some m) ∧
    Hello.codec.decode (m.encode Hello.codec) = .ok Hello.opened ∧
    Hello.opened.version = some 1 ∧ Hello.opened.payload = some [104, 105] ∧
    decode Libs.transparent Hello.codec .node (m.encode Hello.codec)
      (some [Hello.stranger, Hello.key]) = .ok none ∧
    ¬ ReencodePreserves Libs.transparent Hello.codec .node (Hello.codec.encode Hello.proto)
      (some [Hello.stranger, Hello.key]) m := by
  have hdec := Hello.decode_proto
  have hlost := decode_reencoded_lost Hello.codec_undoes rfl hdec Hello.opened_undoes rfl
    Hello.tryDecrypt_payload
  refine ⟨_, hdec, Hello.opened_undoes, rfl, rfl, hlost, fun h => ?_⟩
  obtain ⟨m', hm', _⟩ := h.same
  rw [hlost] at hm'
  cases hm'

/-! ## What a key protects -/

/-- The envelope ends in a signature by `sigPrivKey` over everything before it. -/
def CarriesSignature (libs : Libs) (sigPrivKey envelope : Bytes) : Prop :=
  ∃ body s, libs.secp256k1.ecdsaSign (hexToBuf (.text (libs.keccak256 body))) sigPrivKey = .ok s ∧
    envelope = body ++ s.signature ++ [UInt8.ofNat s.recid]

/-- `enc` is the envelope of `payload`, signed when there is a signing key. -/
structure EnvelopeOf (libs : Libs) (draws : Draws) (payload : Bytes) (opts : Options)
    (enc : Clear) : Prop where
  encoded : clearEncode libs draws.randomBytes payload opts.sigPrivKey = .ok enc
  signed : ∀ key, opts.sigPrivKey = some key → CarriesSignature libs key enc.payload

/-- `cipher` is `clear` encrypted for a public key: it opens under every private key of it. -/
structure EncryptedFor (libs : Libs) (seed : Bytes) (key : BytesOrHex) (clear cipher : Bytes) :
    Prop where
  encrypted : encryptAsymmetric libs seed clear key = .ok cipher
  key_length : (hexToBuf key).length = 65
  opens : ∀ privKey, getPublicKey libs privKey = .ok (hexToBuf key) →
    decryptAsymmetric libs cipher privKey = .ok clear

/-- `cipher` is `clear` encrypted under a symmetric key, and opens under it. -/
structure EncryptedUnder (libs : Libs) (rt : Runtime) (iv : Bytes) (key : BytesOrHex)
    (clear cipher : Bytes) : Prop where
  encrypted : encryptSymmetric (symmetric libs.gcm rt) iv clear key = .ok cipher
  accepted : acceptsKey rt (hexToBuf key)
  opens : decryptSymmetric (symmetric libs.gcm rt) cipher key = .ok clear

/-- A key that is a byte array, or a string that is not empty, is not passed over. -/
structure Protects (libs : Libs) (rt : Runtime) (draws : Draws) (payload : Bytes) (opts : Options)
    (m : WakuMessage) : Prop where
  asymmetric : ∀ key, opts.encPublicKey = some key → key.truthy = true → m.version = some 1 ∧
    ∃ enc cipher, m.payload = some cipher ∧ EnvelopeOf libs draws payload opts enc ∧
      EncryptedFor libs draws.eciesSeed key enc.payload cipher
  symmetric : ∀ key, opts.symKey = some key → key.truthy = true → m.version = some 1 ∧
    ∃ enc cipher, m.payload = some cipher ∧ EnvelopeOf libs draws payload opts enc ∧
      EncryptedUnder libs rt draws.iv key enc.payload cipher
  clear : opts.encPublicKey = none → opts.symKey = none →
    m.version = some 0 ∧ m.payload = some payload ∧ m.signature = none

section

variable {libs : Libs} {rt : Runtime} {draws : Draws}

theorem carriesSignature_of_clearEncode {randomBytes : Nat → Bytes} {payload key : Bytes}
    {enc : Clear} (h : clearEncode libs randomBytes payload (some key) = .ok enc) :
    CarriesSignature libs key enc.payload := by
  obtain ⟨s, pk, hs, _, rfl⟩ := clearEncode_signed_cases h
  exact ⟨_, s, hs, rfl⟩

theorem envelopeOf_of_clearEncode {payload : Bytes} {opts : Options} {enc : Clear}
    (h : clearEncode libs draws.randomBytes payload opts.sigPrivKey = .ok enc) :
    EnvelopeOf libs draws payload opts enc :=
  ⟨h, fun _ hkey => carriesSignature_of_clearEncode (hkey ▸ h)⟩

theorem given_of_truthy {key : BytesOrHex} (h : key.truthy = true) : given (some key) = some key := by
  simp [given, Option.filter, h]

theorem fromBytes_protects (hlibs : libs.Lawful) {payload : Bytes} {contentTopic : String}
    {opts : Options} {m : WakuMessage}
    (hm : fromBytes libs rt draws payload contentTopic (some opts) = .ok m) :
    Protects libs rt draws payload opts m := by
  obtain ⟨timestamp, cipher, sig, version, _, hs, rfl⟩ := fromBytes_cases hm
  simp only [Option.getD_some] at hs
  refine ⟨?_, ?_, ?_⟩
  · intro key hkey htruthy
    have hgiven : given opts.encPublicKey = some key := by rw [hkey, given_of_truthy htruthy]
    cases hs with
    | clear hpk _ => rw [hgiven] at hpk; cases hpk
    | symmetric hpk _ _ _ => rw [hgiven] at hpk; cases hpk
    | @asymmetric key' enc cipher hpk _ henc hc =>
      rw [hgiven] at hpk
      cases hpk
      exact ⟨rfl, enc, cipher, rfl, envelopeOf_of_clearEncode henc, hc, hlibs.ecies.key_length hc,
        fun privKey hpub => hlibs.ecies.decrypt_encrypt hpub hc⟩
  · intro key hkey htruthy
    have hgiven : given opts.symKey = some key := by rw [hkey, given_of_truthy htruthy]
    cases hs with
    | clear _ hsym => rw [hgiven] at hsym; cases hsym
    | asymmetric _ hsym _ _ => rw [hgiven] at hsym; cases hsym
    | @symmetric key' enc _ hsym henc haccepts =>
      rw [hgiven] at hsym
      cases hsym
      exact ⟨rfl, enc, _, rfl, envelopeOf_of_clearEncode henc, encryptSymmetric_accepts haccepts,
        haccepts, decryptSymmetric_seal haccepts draws.iv_length⟩
  · intro hpk hsym
    cases hs with
    | clear _ _ => exact ⟨rfl, rfl, rfl⟩
    | asymmetric hpk' _ _ _ => rw [hpk] at hpk'; cases hpk'
    | symmetric _ hsym' _ _ => rw [hsym] at hsym'; cases hsym'

end

theorem fromBytes_protects_hello :
    Protects Libs.transparent .node Hello.draws Hello.payload Hello.options
      ⟨Hello.proto, none, none⟩ :=
  fromBytes_protects Libs.transparent_lawful Hello.fromBytes_payload

/-- An empty symmetric key, and a signing key alone: the message is clear and unsigned. -/
theorem fromBytes_falls_through :
    (∃ m, fromBytes Libs.transparent .node Hello.draws Hello.payload "/hello"
        (some ⟨.absent, none, some (.text ""), none⟩) = .ok m ∧
      m.version = some 0 ∧ m.payload = some [104, 105]) ∧
    ∃ m, fromBytes Libs.transparent .node Hello.draws Hello.payload "/hello"
        (some ⟨.absent, none, none, some Hello.key⟩) = .ok m ∧
      m.version = some 0 ∧ m.payload = some [104, 105] ∧ m.signature = none :=
  ⟨⟨_, rfl, rfl, rfl⟩, ⟨_, rfl, rfl, rfl, rfl⟩⟩

end JsWaku
