import JsWaku.Message.Envelope
import JsWaku.Message.Proto
import JsWaku.Message.Symmetric

/-!
# JsWaku.Message.WakuMessage

`lib/waku_message/index.ts`: making a message (`fromBytes`), and decoding one received
(`decode`, `decodeProto`). Promises are sequential here except for the key search of `decodeProto`,
whose `Promise.all` keeps the order of the keys whatever order the decryptions finish in.

Lemmas: `fromBytes_cases` says everything a successful `fromBytes` did, and `decodeProto_encrypted`
what `decodeProto` does with the decryption it picks.
-/

namespace JsWaku

open Js Version1 SymmetricCrypto

/-- A `Date`, by its time value; an invalid date has the value NaN. -/
structure Date where
  valueOf : Float

/-- `timestamp.valueOf() / 1000` -/
def Date.toSeconds (d : Date) : Proto.Double := (d.valueOf / 1000).toBits

structure Options where
  timestamp : OptField Date
  encPublicKey : Option BytesOrHex
  symKey : Option BytesOrHex
  sigPrivKey : Option Bytes

/-- `opts ? opts : {}` -/
def Options.none : Options := ⟨.absent, .none, .none, .none⟩

/-- What `fromBytes` draws: the clock, padding, a nonce and the randomness of `ecies.encrypt`. -/
structure Draws where
  now : Date
  randomBytes : Nat → Bytes
  iv : Bytes
  iv_length : iv.length = ivSize
  eciesSeed : Bytes

structure WakuMessage where
  proto : Proto.WakuMessage
  signaturePublicKey : Option Bytes
  signature : Option Bytes
  deriving DecidableEq, Repr

namespace WakuMessage

def payload (m : WakuMessage) : Option Bytes := m.proto.payload
def contentTopic (m : WakuMessage) : Option String := m.proto.contentTopic
def version (m : WakuMessage) : Option UInt32 := m.proto.version

end WakuMessage

def encryptAsymmetric (libs : Libs) (seed data : Bytes) (publicKey : BytesOrHex) :
    Except Thrown Bytes :=
  libs.ecies.encrypt seed (hexToBuf publicKey) data

def decryptAsymmetric (libs : Libs) (payload privKey : Bytes) : Except Thrown Bytes :=
  libs.ecies.decrypt privKey payload

/-- A key option as `if (key)` sees it. -/
def given (key : Option BytesOrHex) : Option BytesOrHex := key.filter BytesOrHex.truthy

/-- The payload to put in the message, the signature it carries and the version it is of. -/
def encryptPayload (libs : Libs) (rt : Runtime) (draws : Draws) (payload : Bytes)
    (opts : Options) : Except Thrown (Bytes × Option Signature × UInt32) :=
  match given opts.encPublicKey, given opts.symKey with
  | some encPublicKey, _ => do
    let enc ← clearEncode libs draws.randomBytes payload opts.sigPrivKey
    let cipher ← encryptAsymmetric libs draws.eciesSeed enc.payload encPublicKey
    return (cipher, enc.sig, 1)
  | none, some symKey => do
    let enc ← clearEncode libs draws.randomBytes payload opts.sigPrivKey
    let cipher ← encryptSymmetric (symmetric libs.gcm rt) draws.iv enc.payload symKey
    return (cipher, enc.sig, 1)
  | none, none => return (payload, none, 0)

def fromBytes (libs : Libs) (rt : Runtime) (draws : Draws) (payload : Bytes)
    (contentTopic : String) (opts : Option Options) : Except Thrown WakuMessage := do
  let opts := opts.getD Options.none
  let timestamp := opts.timestamp.assign draws.now
  if (given opts.encPublicKey).isSome ∧ (given opts.symKey).isSome then
    throw (.text "Pass either `encPublicKey` or `symKey`, not both.")
  let (payload, sig, version) ← encryptPayload libs rt draws payload opts
  -- `timestamp.valueOf()` throws on an explicit `undefined`
  match timestamp with
  | none => throw .typeError
  | some timestamp =>
    return ⟨⟨some payload, some contentTopic, some version, some timestamp.toSeconds⟩,
      sig.map Signature.publicKey, sig.map Signature.signature⟩

/-- The two schemes under one key; a failure of both is an `undefined` among the results. -/
def tryDecrypt (libs : Libs) (rt : Runtime) (payload privateKey : Bytes) : Option Bytes :=
  match decryptSymmetric (symmetric libs.gcm rt) payload (.bytes privateKey) with
  | .ok dec => some dec
  | .error _ =>
    match decryptAsymmetric libs payload privateKey with
    | .ok dec => some dec
    | .error _ => none

/-- `allResults.filter(isDefined)[0]`: an array is truthy, an empty one too. -/
def firstDecrypted (libs : Libs) (rt : Runtime) (payload : Bytes) (keys : List Bytes) :
    Option Bytes :=
  (keys.filterMap (tryDecrypt libs rt payload)).head?

def decodeProto (libs : Libs) (rt : Runtime) (protoBuf : Proto.WakuMessage)
    (decryptionKeys : Option (List Bytes)) : Except Thrown (Option WakuMessage) :=
  match protoBuf.payload with
  | none => .ok none
  | some payload =>
    if protoBuf.version = some 1 then
      match decryptionKeys with
      | none => .ok none
      | some keys =>
        match firstDecrypted libs rt payload keys with
        | none => .ok none
        | some dec => do
          match ← clearDecode libs dec with
          | none => return none
          | some res =>
            return some ⟨{ protoBuf with payload := some res.payload },
              res.sig.map Signature.publicKey, res.sig.map Signature.signature⟩
    else .ok (some ⟨protoBuf, none, none⟩)

def decode (libs : Libs) (codec : Proto.Codec) (rt : Runtime) (bytes : Bytes)
    (decryptionKeys : Option (List Bytes)) : Except Thrown (Option WakuMessage) := do
  let protoBuf ← codec.decode bytes
  decodeProto libs rt protoBuf decryptionKeys

def WakuMessage.encode (codec : Proto.Codec) (m : WakuMessage) : Bytes := codec.encode m.proto

/-! ## What `fromBytes` does -/

section

variable {libs : Libs} {codec : Proto.Codec} {rt : Runtime} {draws : Draws}

theorem encryptSymmetric_cases {iv data c : Bytes} {key : BytesOrHex}
    (h : encryptSymmetric (symmetric libs.gcm rt) iv data key = .ok c) :
    acceptsKey rt (hexToBuf key) ∧
      c = libs.gcm.ctr (hexToBuf key) iv data ++
        libs.gcm.tag (hexToBuf key) iv (libs.gcm.ctr (hexToBuf key) iv data) ++ iv := by
  obtain ⟨cipher, hc, h⟩ := bind_eq_ok h
  cases h
  cases rt with
  | node =>
    obtain ⟨_, hkey, hc⟩ := bind_eq_ok hc
    unfold Node.createCipheriv at hkey
    split at hkey
    · rename_i hk
      cases hc
      exact ⟨hk.1, by simp⟩
    · cases hkey
  | browser =>
    obtain ⟨_, hkey, hc⟩ := bind_eq_ok hc
    unfold Browser.importKey at hkey
    split at hkey
    · cases hc
      exact ⟨by assumption, rfl⟩
    · cases hkey

theorem encryptSymmetric_accepts {data : Bytes} {key : BytesOrHex}
    (hkey : acceptsKey rt (hexToBuf key)) :
    encryptSymmetric (symmetric libs.gcm rt) draws.iv data key =
      .ok (libs.gcm.ctr (hexToBuf key) draws.iv data ++ libs.gcm.tag (hexToBuf key) draws.iv
        (libs.gcm.ctr (hexToBuf key) draws.iv data) ++ draws.iv) := by
  cases rt with
  | node =>
    have hiv : draws.iv ≠ [] := by
      intro h
      have := draws.iv_length
      rw [h] at this
      cases this
    have hcreate : Node.createCipheriv (hexToBuf key) draws.iv = .ok () := if_pos ⟨hkey, hiv⟩
    simp only [encryptSymmetric, symmetric, Node.encrypt, hcreate, ok_bind, List.append_nil]
    rfl
  | browser =>
    have himport : Browser.importKey (hexToBuf key) = .ok () := if_pos hkey
    simp only [encryptSymmetric, symmetric, Browser.encrypt, himport, ok_bind]
    rfl

/-- How the payload of a message came about. -/
inductive Sealed (libs : Libs) (rt : Runtime) (draws : Draws) (payload : Bytes) (opts : Options) :
    Bytes → Option Signature → UInt32 → Prop where
  | clear : given opts.encPublicKey = none → given opts.symKey = none →
      Sealed libs rt draws payload opts payload none 0
  | asymmetric {key : BytesOrHex} {enc : Clear} {cipher : Bytes} :
      given opts.encPublicKey = some key → given opts.symKey = none →
      clearEncode libs draws.randomBytes payload opts.sigPrivKey = .ok enc →
      libs.ecies.encrypt draws.eciesSeed (hexToBuf key) enc.payload = .ok cipher →
      Sealed libs rt draws payload opts cipher enc.sig 1
  | symmetric {key : BytesOrHex} {enc : Clear} :
      given opts.encPublicKey = none → given opts.symKey = some key →
      clearEncode libs draws.randomBytes payload opts.sigPrivKey = .ok enc →
      acceptsKey rt (hexToBuf key) →
      Sealed libs rt draws payload opts
        (libs.gcm.ctr (hexToBuf key) draws.iv enc.payload ++
          libs.gcm.tag (hexToBuf key) draws.iv (libs.gcm.ctr (hexToBuf key) draws.iv enc.payload) ++
          draws.iv) enc.sig 1

theorem encryptPayload_sealed {payload p : Bytes} {opts : Options} {sig : Option Signature}
    {version : UInt32} (hboth : ¬ ((given opts.encPublicKey).isSome ∧ (given opts.symKey).isSome))
    (h : encryptPayload libs rt draws payload opts = .ok (p, sig, version)) :
    Sealed libs rt draws payload opts p sig version := by
  unfold encryptPayload at h
  cases hpk : given opts.encPublicKey with
  | some key =>
    have hsym : given opts.symKey = none := by simpa [hpk] using hboth
    simp only [hpk] at h
    obtain ⟨enc, henc, h⟩ := bind_eq_ok h
    obtain ⟨cipher, hc, h⟩ := bind_eq_ok h
    cases h
    exact .asymmetric hpk hsym henc hc
  | none =>
    cases hsym : given opts.symKey with
    | some key =>
      simp only [hpk, hsym] at h
      obtain ⟨enc, henc, h⟩ := bind_eq_ok h
      obtain ⟨cipher, hc, h⟩ := bind_eq_ok h
      cases h
      obtain ⟨hkey, rfl⟩ := encryptSymmetric_cases hc
      exact .symmetric hpk hsym henc hkey
    | none =>
      simp only [hpk, hsym] at h
      cases h
      exact .clear hpk hsym

theorem fromBytes_cases {payload : Bytes} {contentTopic : String} {opts : Option Options}
    {m : WakuMessage} (h : fromBytes libs rt draws payload contentTopic opts = .ok m) :
    ∃ timestamp p sig version,
      (opts.getD Options.none).timestamp.assign draws.now = some timestamp ∧
      Sealed libs rt draws payload (opts.getD Options.none) p sig version ∧
      m = ⟨⟨some p, some contentTopic, some version, some timestamp.toSeconds⟩,
        sig.map Signature.publicKey, sig.map Signature.signature⟩ := by
  unfold fromBytes at h
  simp only at h
  split at h
  · cases h
  · rename_i hboth
    obtain ⟨⟨p, sig, version⟩, hp, h⟩ := bind_eq_ok h
    split at h
    · cases h
    · rename_i timestamp ht
      cases h
      exact ⟨timestamp, p, sig, version, ht, encryptPayload_sealed hboth hp, rfl⟩

end

section

variable {libs : Libs} {codec : Proto.Codec} {rt : Runtime}

theorem decodeProto_clear {p : Proto.WakuMessage} {b : Bytes} (hb : p.payload = some b)
    (hv : p.version ≠ some 1) (keys : Option (List Bytes)) :
    decodeProto libs rt p keys = .ok (some ⟨p, none, none⟩) := by
  simp [decodeProto, hb, hv]

theorem decodeProto_encrypted {p : Proto.WakuMessage} {b dec : Bytes} {keys : List Bytes}
    (hb : p.payload = some b) (hv : p.version = some 1)
    (hdec : firstDecrypted libs rt b keys = some dec) :
    decodeProto libs rt p (some keys) = (do
      match ← clearDecode libs dec with
      | none => return none
      | some res =>
        return some ⟨{ p with payload := some res.payload },
          res.sig.map Signature.publicKey, res.sig.map Signature.signature⟩) := by
  simp [decodeProto, hb, hv, hdec]

/-- When every key decrypts to the same bytes or not at all, and one does, the search finds
these bytes, whatever the order of the keys. -/
theorem firstDecrypted_of_unique {b dec key : Bytes} {keys : List Bytes} (hmem : key ∈ keys)
    (hkey : tryDecrypt libs rt b key = some dec)
    (hother : ∀ k ∈ keys, k ≠ key → tryDecrypt libs rt b k = none) :
    firstDecrypted libs rt b keys = some dec := by
  have hall : ∀ d ∈ keys.filterMap (tryDecrypt libs rt b), d = dec := by
    intro d hd
    obtain ⟨k, hk, hkd⟩ := List.mem_filterMap.mp hd
    by_cases hkey' : k = key
    · subst hkey'; rw [hkey] at hkd; cases hkd; rfl
    · rw [hother k hk hkey'] at hkd; cases hkd
  have hin : dec ∈ keys.filterMap (tryDecrypt libs rt b) := List.mem_filterMap.mpr ⟨key, hmem, hkey⟩
  unfold firstDecrypted
  cases hres : keys.filterMap (tryDecrypt libs rt b) with
  | nil => rw [hres] at hin; cases hin
  | cons d ds =>
    rw [hres] at hall
    rw [hall d (by simp)]
    rfl

/-- A decoded message is the protobuf object, with the payload replaced when it was encrypted. -/
theorem decodeProto_cases {p : Proto.WakuMessage} {keys : Option (List Bytes)} {m : WakuMessage}
    (h : decodeProto libs rt p keys = .ok (some m)) :
    (p.version ≠ some 1 ∧ (∃ b, p.payload = some b) ∧ m = ⟨p, none, none⟩) ∨
    (p.version = some 1 ∧ ∃ b, m.proto = { p with payload := some b }) := by
  unfold decodeProto at h
  split at h
  · cases h
  · rename_i b hb
    split at h
    · rename_i hv
      split at h
      · cases h
      · split at h
        · cases h
        · obtain ⟨res, _, h⟩ := bind_eq_ok h
          split at h
          · cases h
          · cases h
            exact .inr ⟨hv, _, rfl⟩
    · rename_i hv
      cases h
      exact .inl ⟨hv, ⟨b, hb⟩, rfl⟩

/-- The `await` of `clearDecode` stands outside the `try` blocks: an exception in it is one of
`decodeProto`. Nothing else in there throws. -/
theorem throws_decodeProto {p : Proto.WakuMessage} {keys : Option (List Bytes)} :
    Throws (decodeProto libs rt p keys) ↔ ∃ payload ks dec, p.payload = some payload ∧
      p.version = some 1 ∧ keys = some ks ∧ firstDecrypted libs rt payload ks = some dec ∧
      Malformed libs dec := by
  constructor
  · intro h
    unfold decodeProto at h
    split at h
    · exact absurd h (not_throws_ok _)
    · rename_i payload hp
      split at h
      · rename_i hv
        split at h
        · exact absurd h (not_throws_ok _)
        · rename_i ks
          split at h
          · exact absurd h (not_throws_ok _)
          · rename_i dec hdec
            refine ⟨payload, ks, dec, hp, hv, rfl, hdec, throws_clearDecode.mp ?_⟩
            cases hc : clearDecode libs dec with
            | error e => exact throws_error e
            | ok res => cases res <;> simp [hc, pure, Except.pure] at h
      · exact absurd h (not_throws_ok _)
  · rintro ⟨payload, ks, dec, hp, hv, rfl, hdec, hbad⟩
    obtain ⟨e, he⟩ := throws_clearDecode.mpr hbad
    rw [decodeProto_encrypted hp hv hdec, he]
    exact throws_error e

end

end JsWaku
