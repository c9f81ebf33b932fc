import JsWaku.Message.Envelope
import JsWaku.Message.Symmetric

/-!
# JsWaku.Message.Padding

What the length of an envelope, or of its symmetric cipher text, shows of the payload.

* `Encoding`  — a call of `clearEncode` that is accepted.
* `Padded`    — between the payload and the trailer there are 1 to 256 bytes of padding, which
  fill the envelope up to the end of a block.
* `encoding_padded` — every accepted encoding is padded so, and two of them whose raw sizes end in
  the same block have the same length, encrypted or not.
-/

namespace JsWaku
namespace Version1

open Js SymmetricCrypto

/-- What the envelope takes without its padding. -/
def rawSize (payload : Bytes) (signed : Bool) : Nat :=
  flagsLength + getSizeOfPayloadSizeField payload + payload.length +
    if signed then signatureLength else 0

structure Encoding (libs : Libs) where
  randomBytes : Nat → Bytes
  payload : Bytes
  sigPrivKey : Option Bytes
  enc : Clear
  accepted : clearEncode libs randomBytes payload sigPrivKey = .ok enc

/-- The block of 256 bytes in which the raw envelope ends. -/
def Encoding.block {libs : Libs} (e : Encoding libs) : Nat :=
  rawSize e.payload e.sigPrivKey.isSome / paddingTarget

/-- One of the cipher texts the envelope may become. -/
def Encoding.Cipher {libs : Libs} (e : Encoding libs) (cipher : Bytes) : Prop :=
  ∃ rt iv key, iv.length = ivSize ∧
    encryptSymmetric (symmetric libs.gcm rt) iv e.enc.payload key = .ok cipher

structure Padded (payload : Bytes) (signed : Bool) (envelope : Bytes) : Prop where
  layout : ∃ pad trailer,
    envelope = envelopeBody (getSizeOfPayloadSizeField payload) signed payload pad ++ trailer ∧
      1 ≤ pad.length ∧ pad.length ≤ 256 ∧
      trailer.length = if signed then signatureLength else 0
  length : envelope.length = 256 * (rawSize payload signed / 256 + 1)

section

variable {libs : Libs} {randomBytes : Nat → Bytes} {payload : Bytes} {signed : Bool}

theorem paddingSize_eq : paddingSize payload signed =
    paddingTarget - rawSize payload signed % paddingTarget := by
  cases signed with
  | false => rfl
  | true => rfl

/-- A raw size on a boundary gets a whole block of padding. -/
theorem paddingSize_bounds : 1 ≤ paddingSize payload signed ∧ paddingSize payload signed ≤ 256 := by
  have hmod : rawSize payload signed % paddingTarget < paddingTarget :=
    Nat.mod_lt _ (by decide)
  rw [paddingSize_eq]
  unfold paddingTarget at hmod ⊢
  omega

theorem rawSize_add_padding :
    rawSize payload signed + paddingSize payload signed =
      256 * (rawSize payload signed / 256 + 1) := by
  have hdiv := Nat.div_add_mod (rawSize payload signed) 256
  have hmod : rawSize payload signed % 256 < 256 := Nat.mod_lt _ (by decide)
  rw [paddingSize_eq]
  unfold paddingTarget
  omega

theorem pad_length (h : Accepted randomBytes payload signed) :
    (randomBytes (paddingSize payload signed)).length = paddingSize payload signed := by
  by_contra hne
  have hvalid := h.pad_valid
  rw [validateDataIntegrity, if_pos hne] at hvalid
  cases hvalid

/-- The size field takes as many bytes as the raw size counts for it. -/
theorem envelopeBody_length {pad : Bytes} :
    (envelopeBody (getSizeOfPayloadSizeField payload) signed payload pad).length =
      flagsLength + getSizeOfPayloadSizeField payload + payload.length + pad.length := by
  simp only [envelopeBody, List.length_cons, List.length_append, leBytes_length, flagsLength]
  omega

/-- Whatever the trailer holds, its length is all that counts. -/
theorem padded_append (h : Accepted randomBytes payload signed) {trailer : Bytes}
    (htrailer : trailer.length = if signed then signatureLength else 0) :
    Padded payload signed (bodyOf randomBytes payload signed ++ trailer) := by
  have hpad := pad_length h
  have hbounds := @paddingSize_bounds payload signed
  refine ⟨⟨_, trailer, rfl, by omega, by omega, htrailer⟩, ?_⟩
  rw [← rawSize_add_padding, bodyOf, List.length_append, envelopeBody_length, hpad, htrailer,
    rawSize]
  omega

theorem clearEncode_padded (hs : libs.secp256k1.Lawful) {sigPrivKey : Option Bytes} {enc : Clear}
    (h : clearEncode libs randomBytes payload sigPrivKey = .ok enc) :
    Padded payload sigPrivKey.isSome enc.payload := by
  have haccepted := clearEncode_accepted h
  cases sigPrivKey with
  | none =>
    rw [clearEncode_unsigned haccepted] at h
    cases h
    have hpadded : Padded payload false (bodyOf randomBytes payload false ++ []) :=
      padded_append haccepted rfl
    rwa [List.append_nil] at hpadded
  | some key =>
    obtain ⟨s, _, hsign, _, rfl⟩ := clearEncode_signed_cases h
    rw [List.append_assoc]
    refine padded_append haccepted ?_
    rw [List.length_append, hs.signature_length hsign]
    rfl

theorem encrypt_length {gcm : Gcm} {rt : Runtime} {iv key clearText cipher : Bytes}
    (h : (symmetric gcm rt).encrypt iv key clearText = .ok cipher) :
    cipher.length = clearText.length + tagSize := by
  cases rt with
  | node =>
    obtain ⟨_, _, h⟩ := bind_eq_ok h
    cases h
    simp [gcm.ctr_length, gcm.tag_length, tagSize]
  | browser =>
    obtain ⟨_, _, h⟩ := bind_eq_ok h
    cases h
    simp [gcm.ctr_length, gcm.tag_length, tagSize]

theorem Encoding.Cipher.length {e : Encoding libs} {cipher : Bytes} (h : e.Cipher cipher) :
    cipher.length = e.enc.payload.length + tagSize + ivSize := by
  obtain ⟨rt, iv, key, hiv, h⟩ := h
  obtain ⟨_, hencrypt, h⟩ := bind_eq_ok h
  cases h
  rw [List.length_append, encrypt_length hencrypt, hiv]

theorem encoding_padded (hs : libs.secp256k1.Lawful) :
    (∀ e : Encoding libs, Padded e.payload e.sigPrivKey.isSome e.enc.payload) ∧
      ∀ e e' : Encoding libs, e.block = e'.block →
        e.enc.payload.length = e'.enc.payload.length ∧
          ∀ cipher cipher', e.Cipher cipher → e'.Cipher cipher' → cipher.length = cipher'.length := by
  refine ⟨fun e => clearEncode_padded hs e.accepted, fun e e' hblock => ?_⟩
  have hlength : e.enc.payload.length = e'.enc.payload.length := by
    rw [(clearEncode_padded hs e.accepted).length, (clearEncode_padded hs e'.accepted).length]
    exact congrArg (fun block => 256 * (block + 1)) hblock
  refine ⟨hlength, fun cipher cipher' h h' => ?_⟩
  rw [h.length, h'.length, hlength]

end

namespace Greeting

def hi : Encoding Libs.transparent where
  randomBytes n := List.replicate n 1
  payload := [104, 105]
  sigPrivKey := none
  enc := ⟨bodyOf (List.replicate · 1) [104, 105] false, none⟩
  accepted := clearEncode_unsigned ⟨by decide, validateDataIntegrity_ones _⟩

/-- Longer, and signed. -/
def hello : Encoding Libs.transparent where
  randomBytes n := List.replicate n 1
  payload := [104, 101, 108, 108, 111]
  sigPrivKey := some signingKey
  enc :=
    let body := bodyOf (List.replicate · 1) [104, 101, 108, 108, 111] true
    ⟨body ++ (signingKey ++ digest body) ++ [0],
      some ⟨signingKey ++ digest body, 4 :: (signingKey ++ zeros 32)⟩⟩
  accepted := clearEncode_transparent ⟨by decide, validateDataIntegrity_ones _⟩

end Greeting

theorem encoding_padded_greetings :
    Padded Greeting.hi.payload false Greeting.hi.enc.payload ∧
      Padded Greeting.hello.payload true Greeting.hello.enc.payload ∧
      Greeting.hi.enc.payload.length = Greeting.hello.enc.payload.length := by
  obtain ⟨hpadded, hsame⟩ := encoding_padded Libs.transparent_lawful.secp256k1
  have hblock : Greeting.hi.block = Greeting.hello.block := by
    have hsize : ∀ payload : Bytes, payload.length < 256 → getSizeOfPayloadSizeField payload = 1 := by
      intro payload hlen
      rw [getSizeOfPayloadSizeField, payloadSizeLoop, if_neg (Nat.not_le.mpr hlen)]
    rw [Encoding.block, Encoding.block, rawSize, rawSize, hsize _ (by decide), hsize _ (by decide)]
    rfl
  exact ⟨hpadded Greeting.hi, hpadded Greeting.hello, (hsame _ _ hblock).1⟩

end Version1
end JsWaku
