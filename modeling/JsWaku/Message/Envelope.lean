import JsWaku.Message.Version1

/-!
# JsWaku.Message.Envelope

The envelope as a data format, and the round trip through it.

* `Envelope` — an envelope the format can carry: a size field of one to three bytes, a payload
  whose length fits it, padding, and a trailer of 65 bytes when signed.
* `clearDecode_bytes` — decoding the bytes of an envelope gives its payload and recovers the key
  behind its trailer.
* `clearEncode_envelope` — below `2^24` bytes, `clearEncode` writes such an envelope.
* `clearDecode_wide` — a size field of four bytes has its width's low bits clear, so the decoder
  sees a width of zero.
-/

namespace JsWaku
namespace Version1

open Js

structure Envelope where
  width : Nat
  payload : Bytes
  pad : Bytes
  trailer : Option Bytes
  width_pos : 0 < width
  width_lt : width < 4
  payload_lt : payload.length < 256 ^ width
  trailer_length : ∀ t, trailer = some t → t.length = signatureLength

namespace Envelope

/-- What the signature covers. -/
def body (e : Envelope) : Bytes := envelopeBody e.width e.trailer.isSome e.payload e.pad

def bytes (e : Envelope) : Bytes := e.body ++ e.trailer.getD []

end Envelope

theorem flag_width {w : Nat} (h0 : 0 < w) (h4 : w < 4) (signed : Bool) :
    (UInt8.ofNat w ||| (if signed then 4 else 0)).toNat &&& flagMask = w := by
  interval_cases w <;> cases signed <;> decide

theorem flag_signed {w : Nat} (h0 : 0 < w) (h4 : w < 4) (signed : Bool) :
    ((UInt8.ofNat w ||| (if signed then 4 else 0)).toNat &&& isSignedMask == isSignedMask) =
      signed := by
  interval_cases w <;> cases signed <;> decide

section Decode

variable {libs : Libs}

/-- The size field reads back the payload's length. -/
theorem readSize_body {w : Nat} {signed : Bool} {payload pad rest : Bytes}
    (h : payload.length < 256 ^ w) :
    readUIntLE (envelopeBody w signed payload pad ++ rest) flagsLength w = .ok payload.length := by
  have := readUIntLE_append [UInt8.ofNat w ||| (if signed then 4 else 0)]
    (leBytes w payload.length) (payload ++ pad ++ rest)
  rw [leVal_leBytes, Nat.mod_eq_of_lt h] at this
  simpa [envelopeBody, flagsLength, List.append_assoc] using this

/-- The slice after the size field is the payload. -/
theorem slice_body {w : Nat} {signed : Bool} {payload pad rest : Bytes} :
    slice (envelopeBody w signed payload pad ++ rest) ((flagsLength + w : Nat) : Int)
      ((flagsLength + w : Nat) + payload.length) = payload := by
  have := slice_append ((UInt8.ofNat w ||| (if signed then 4 else 0)) :: leBytes w payload.length)
    payload (pad ++ rest)
  rw [show (flagsLength + w : Nat) =
    ((UInt8.ofNat w ||| (if signed then 4 else 0)) :: leBytes w payload.length).length by
      simp [flagsLength, Nat.add_comm]]
  simpa [envelopeBody, List.append_assoc] using this

theorem getSignature_append {body t : Bytes} (h : t.length = signatureLength) :
    getSignature (body ++ t) = t := by
  rw [getSignature, slice_length]
  exact sliceFrom_sub_append h

theorem getHash_append {body t : Bytes} (h : t.length = signatureLength) :
    getHash libs (body ++ t) true = libs.keccak256 body := by
  rw [getHash, if_pos rfl]
  exact congrArg _ (slice_zero_sub_append h)

theorem clearDecode_bytes (e : Envelope) :
    clearDecode libs e.bytes =
      match e.trailer with
      | none => .ok (some ⟨e.payload, none⟩)
      | some t => do
        let publicKey ← ecRecoverPubKey libs (libs.keccak256 e.body) t
        return some ⟨e.payload, some ⟨t, publicKey⟩⟩ := by
  have hflag : readUIntLE e.bytes 0 1 =
      .ok (UInt8.ofNat e.width ||| (if e.trailer.isSome then 4 else 0)).toNat := by
    simp [Envelope.bytes, Envelope.body, envelopeBody]
  have hsize : readUIntLE e.bytes flagsLength e.width = .ok e.payload.length :=
    readSize_body e.payload_lt
  have hslice : slice e.bytes ((flagsLength + e.width : Nat) : Int)
      ((flagsLength + e.width : Nat) + e.payload.length) = e.payload := slice_body
  have hw : e.width ≠ 0 := by have := e.width_pos; omega
  simp only [clearDecode, hflag, ok_bind, flag_width e.width_pos e.width_lt, hw, ite_false,
    hsize, flag_signed e.width_pos e.width_lt]
  simp only [Nat.cast_add] at hslice
  cases ht : e.trailer with
  | none => simp [hslice, pure, Except.pure]
  | some t =>
    have hb : e.bytes = e.body ++ t := by simp [Envelope.bytes, ht]
    have hlen := e.trailer_length t ht
    simp [hb ▸ hslice, hb, getSignature_append hlen, getHash_append hlen]

theorem clearDecode_wide {signed : Bool} {payload pad rest : Bytes} :
    clearDecode libs (envelopeBody 4 signed payload pad ++ rest) = .ok none := by
  have h : (UInt8.ofNat 4 ||| (if signed then 4 else 0)).toNat &&& flagMask = 0 := by
    cases signed <;> decide
  simp only [clearDecode, envelopeBody, List.cons_append, readUIntLE_first, ok_bind, h, ite_true]
  rfl

/-- A byte string with a throwing read in it: the flag byte, the size field, the recovery id, or
the public key behind the signature. -/
inductive Malformed (libs : Libs) : Bytes → Prop where
  | empty : Malformed libs []
  | size {flag : UInt8} {rest : Bytes} : flag.toNat &&& flagMask ≠ 0 →
      rest.length < flag.toNat &&& flagMask → Malformed libs (flag :: rest)
  | unsigned {flag : UInt8} {rest : Bytes} : flag.toNat &&& flagMask ≠ 0 →
      flag.toNat &&& flagMask ≤ rest.length → flag.toNat &&& isSignedMask = isSignedMask →
      rest.length + 1 < signatureLength → Malformed libs (flag :: rest)
  | forged {flag recid : UInt8} {rest body signature : Bytes} : flag.toNat &&& flagMask ≠ 0 →
      flag.toNat &&& isSignedMask = isSignedMask → flag :: rest = body ++ signature ++ [recid] →
      signature.length = 64 →
      Throws (libs.secp256k1.ecdsaRecover signature recid.toBitVec.toInt
        (hexToBuf (.text (libs.keccak256 body))) false) →
      Malformed libs (flag :: rest)

theorem ecRecoverPubKey_short {hash : String} {signature : Bytes}
    (h : signature.length < signatureLength) : Throws (ecRecoverPubKey libs hash signature) := by
  have hnil : sliceFrom signature 64 = [] := by
    unfold signatureLength at h
    rw [sliceFrom, List.drop_eq_nil_iff, sliceBound, if_neg (by omega)]
    exact Nat.le_min.mpr ⟨by omega, Nat.le_refl _⟩
  rw [ecRecoverPubKey, hnil]
  exact throws_error _

theorem ecRecoverPubKey_append {hash : String} {signature : Bytes} {recid : UInt8}
    (h : signature.length = 64) : ecRecoverPubKey libs hash (signature ++ [recid]) =
      libs.secp256k1.ecdsaRecover signature recid.toBitVec.toInt (hexToBuf (.text hash)) false := by
  have hfrom : sliceFrom (signature ++ [recid]) 64 = [recid] := by
    have := sliceFrom_append signature [recid]
    rwa [h] at this
  have hto : slice (signature ++ [recid]) 0 64 = signature := by
    have := slice_append [] signature [recid]
    simpa [h] using this
  rw [ecRecoverPubKey, hfrom, hto]
  rfl

/-- The last 65 bytes are a signature and a recovery id. -/
theorem split_signature {b : Bytes} (h : signatureLength ≤ b.length) :
    ∃ body signature recid, b = body ++ signature ++ [recid] ∧ signature.length = 64 := by
  unfold signatureLength at h
  have hne : b ≠ [] := by
    rintro rfl
    simp only [List.length_nil] at h
    omega
  refine ⟨b.dropLast.take (b.length - 65), b.dropLast.drop (b.length - 65), b.getLast hne, ?_, ?_⟩
  · rw [List.take_append_drop, List.dropLast_append_getLast]
  · rw [List.length_drop, List.length_dropLast]
    omega

/-- What is left of `clearDecode` once the size field has been read. -/
theorem throws_clearDecode_signed {flag : UInt8} {rest : Bytes}
    (hw : flag.toNat &&& flagMask ≠ 0) (hsize : flag.toNat &&& flagMask ≤ rest.length) :
    Throws (clearDecode libs (flag :: rest)) ↔ flag.toNat &&& isSignedMask = isSignedMask ∧
      Throws (ecRecoverPubKey libs (getHash libs (flag :: rest) true)
        (getSignature (flag :: rest))) := by
  have hread : readUIntLE (flag :: rest) flagsLength (flag.toNat &&& flagMask) =
      .ok (leVal (((flag :: rest).drop flagsLength).take (flag.toNat &&& flagMask))) :=
    if_pos (by rw [List.length_cons]; unfold flagsLength; omega)
  simp only [clearDecode, readUIntLE_first, ok_bind, hw, ite_false, hread, beq_iff_eq]
  by_cases hsigned : flag.toNat &&& isSignedMask = isSignedMask
  · simp only [hsigned, beq_self_eq_true, ite_true, true_and]
    cases ecRecoverPubKey libs (getHash libs (flag :: rest) true) (getSignature (flag :: rest)) <;>
      simp [throws_error, pure, Except.pure]
  · simp [hsigned, pure, Except.pure]

theorem throws_recover {message : Bytes} :
    Throws (ecRecoverPubKey libs (getHash libs message true) (getSignature message)) ↔
      message.length < signatureLength ∨ ∃ body signature recid,
        message = body ++ signature ++ [recid] ∧ signature.length = 64 ∧
        Throws (libs.secp256k1.ecdsaRecover signature recid.toBitVec.toInt
          (hexToBuf (.text (libs.keccak256 body))) false) := by
  by_cases hlen : message.length < signatureLength
  · have hshort : (getSignature message).length < signatureLength := by
      rw [getSignature, slice_length]
      exact Nat.lt_of_le_of_lt (sliceFrom_length_le _ _) hlen
    exact ⟨fun _ => .inl hlen, fun _ => ecRecoverPubKey_short hshort⟩
  · have happend : ∀ {body signature : Bytes} {recid : UInt8}, signature.length = 64 →
        ecRecoverPubKey libs (getHash libs (body ++ signature ++ [recid]) true)
          (getSignature (body ++ signature ++ [recid])) =
        libs.secp256k1.ecdsaRecover signature recid.toBitVec.toInt
          (hexToBuf (.text (libs.keccak256 body))) false := by
      intro body signature recid hs
      have hs' : (signature ++ [recid]).length = signatureLength := by simp [hs, signatureLength]
      rw [List.append_assoc, getSignature_append hs', getHash_append hs', ecRecoverPubKey_append hs]
    constructor
    · intro h
      obtain ⟨body, signature, recid, rfl, hs⟩ := split_signature (Nat.le_of_not_lt hlen)
      rw [happend hs] at h
      exact .inr ⟨body, signature, recid, rfl, hs, h⟩
    · rintro (h | ⟨body, signature, recid, rfl, hs, h⟩)
      · exact absurd h hlen
      · rw [happend hs]
        exact h

theorem throws_clearDecode {dec : Bytes} : Throws (clearDecode libs dec) ↔ Malformed libs dec := by
  cases dec with
  | nil => exact ⟨fun _ => .empty, fun _ => throws_error _⟩
  | cons flag rest =>
    by_cases hw : flag.toNat &&& flagMask = 0
    · constructor
      · rintro ⟨e, he⟩
        simp [clearDecode, hw, pure, Except.pure] at he
      · rintro (_ | ⟨h, _⟩ | ⟨h, _⟩ | ⟨h, _⟩) <;> exact absurd hw h
    · by_cases hsize : flag.toNat &&& flagMask ≤ rest.length
      · rw [throws_clearDecode_signed hw hsize, throws_recover]
        constructor
        · rintro ⟨hsigned, hshort | ⟨body, signature, recid, heq, hs, ht⟩⟩
          · exact .unsigned hw hsize hsigned hshort
          · exact .forged hw hsigned heq hs ht
        · intro h
          cases h with
          | size _ h => omega
          | unsigned _ _ hsigned hshort => exact ⟨hsigned, .inl hshort⟩
          | forged _ hsigned heq hs ht => exact ⟨hsigned, .inr ⟨_, _, _, heq, hs, ht⟩⟩
      · refine ⟨fun _ => .size hw (by omega), fun _ => ?_⟩
        obtain ⟨e, he⟩ := (@throws_readUIntLE (flag :: rest) flagsLength
          (flag.toNat &&& flagMask)).mpr (by rw [List.length_cons]; unfold flagsLength; omega)
        simp only [clearDecode, readUIntLE_first, ok_bind, hw, ite_false, he, error_bind]
        exact throws_error _

end Decode

/-! ## Encode, then decode -/

section RoundTrip

variable {libs : Libs} {randomBytes : Nat → Bytes} {payload : Bytes} {sigPrivKey : Option Bytes}

/-- The recovery id is written as one byte and read back as a signed one. -/
theorem ecRecoverPubKey_sign (hs : libs.secp256k1.Lawful) {hash : String} {key pk : Bytes}
    {s : EcdsaSignature} (hsign : libs.secp256k1.ecdsaSign (hexToBuf (.text hash)) key = .ok s)
    (hpk : getPublicKey libs key = .ok pk) :
    ecRecoverPubKey libs hash (s.signature ++ [UInt8.ofNat s.recid]) = .ok pk := by
  have hlen := hs.signature_length hsign
  have hrec : (UInt8.ofNat s.recid).toBitVec.toInt = s.recid := by
    have := hs.recid_lt hsign
    interval_cases s.recid <;> rfl
  obtain ⟨pk', hpk', hrecover⟩ := hs.recover_sign hsign
  have : pk' = pk := by rw [getPublicKey] at hpk; rw [hpk] at hpk'; cases hpk'; rfl
  subst this
  rw [ecRecoverPubKey_append hlen, hrec, hrecover]

/-- Below `2^24` bytes `clearEncode` writes an `Envelope`: unsigned without a key, and with one
signed over its body. -/
theorem clearEncode_envelope (hs : libs.secp256k1.Lawful) (hlen : payload.length < 2 ^ 24)
    {enc : Clear} (h : clearEncode libs randomBytes payload sigPrivKey = .ok enc) :
    ∃ e : Envelope, e.payload = payload ∧ enc.payload = e.bytes ∧
      match sigPrivKey with
      | none => e.trailer = none ∧ enc.sig = none
      | some key => ∃ s pk, libs.secp256k1.ecdsaSign
            (hexToBuf (.text (libs.keccak256 e.body))) key = .ok s ∧
          getPublicKey libs key = .ok pk ∧
          e.trailer = some (s.signature ++ [UInt8.ofNat s.recid]) ∧
          enc.sig = some ⟨s.signature, pk⟩ := by
  have hw : getSizeOfPayloadSizeField payload < 4 :=
    Nat.lt_succ_of_le ((size_le_iff (by omega)).mpr (by simpa using hlen))
  cases sigPrivKey with
  | none =>
    rw [clearEncode_unsigned (clearEncode_accepted h)] at h
    cases h
    exact ⟨⟨_, payload, randomBytes (paddingSize payload false), none, size_pos payload, hw,
      length_lt_pow_size payload, by simp⟩, rfl,
      by simp [Envelope.bytes, Envelope.body, bodyOf], rfl, rfl⟩
  | some key =>
    obtain ⟨s, pk, hsign, hpk, rfl⟩ := clearEncode_signed_cases h
    refine ⟨⟨_, payload, randomBytes (paddingSize payload true),
      some (s.signature ++ [UInt8.ofNat s.recid]), size_pos payload, hw,
      length_lt_pow_size payload, ?_⟩, rfl, ?_, s, pk, hsign, hpk, rfl, rfl⟩
    · intro t ht
      cases ht
      simp [hs.signature_length hsign, signatureLength]
    · simp [Envelope.bytes, Envelope.body, bodyOf]

/-- What `clearDecode` makes of an encoding below `2^24` bytes. -/
theorem clearDecode_clearEncode (hs : libs.secp256k1.Lawful) (hlen : payload.length < 2 ^ 24)
    {enc : Clear} (h : clearEncode libs randomBytes payload sigPrivKey = .ok enc) :
    ∃ dec, clearDecode libs enc.payload = .ok (some dec) ∧ dec.payload = payload ∧
      dec.sig.map Signature.publicKey = enc.sig.map Signature.publicKey := by
  obtain ⟨e, rfl, hbytes, htr⟩ := clearEncode_envelope hs hlen h
  rw [hbytes, clearDecode_bytes]
  cases sigPrivKey with
  | none =>
    obtain ⟨ht, hsig⟩ := htr
    rw [ht]
    exact ⟨_, rfl, rfl, by simp [hsig]⟩
  | some key =>
    obtain ⟨s, pk, hsign, hpk, ht, hsig⟩ := htr
    simp only [ht, ecRecoverPubKey_sign hs hsign hpk, ok_bind]
    exact ⟨_, rfl, rfl, by simp [hsig]⟩

/-- The signature an encoding reports is there exactly when a key was given, and is that key's. -/
theorem clearEncode_sig {enc : Clear}
    (h : clearEncode libs randomBytes payload sigPrivKey = .ok enc) :
    match sigPrivKey with
    | none => enc.sig = none
    | some key => ∃ sig, enc.sig = some sig ∧ getPublicKey libs key = .ok sig.publicKey := by
  cases sigPrivKey with
  | none =>
    rw [clearEncode_unsigned (clearEncode_accepted h)] at h
    cases h; rfl
  | some key =>
    obtain ⟨s, pk, _, hpk, rfl⟩ := clearEncode_signed_cases h
    exact ⟨_, rfl, hpk⟩

/-- From `2^24` bytes on, the size field is four bytes wide. -/
theorem clearDecode_clearEncode_wide (hlen : ¬ payload.length < 2 ^ 24) {enc : Clear}
    (h : clearEncode libs randomBytes payload sigPrivKey = .ok enc) :
    clearDecode libs enc.payload = .ok none := by
  have hacc := clearEncode_accepted h
  have hw : getSizeOfPayloadSizeField payload = 4 := by
    have h4 : getSizeOfPayloadSizeField payload ≤ 4 :=
      (size_le_iff (by omega)).mpr (by simpa using hacc.length_lt)
    have h3 : ¬ getSizeOfPayloadSizeField payload ≤ 3 := fun h3 =>
      hlen (by simpa using (size_le_iff (by omega)).mp h3)
    omega
  cases sigPrivKey with
  | none =>
    rw [clearEncode_unsigned hacc] at h
    cases h
    have hwide := @clearDecode_wide libs false payload (randomBytes (paddingSize payload false)) []
    rw [List.append_nil] at hwide
    simpa [bodyOf, hw] using hwide
  | some key =>
    obtain ⟨s, pk, _, _, rfl⟩ := clearEncode_signed_cases h
    simp only [bodyOf, hw, List.append_assoc]
    exact clearDecode_wide

/-- `enc` decodes to the payload it was made from, with a signature exactly when a key was given,
and then with that key's public key. -/
def RoundTrips (libs : Libs) (payload : Bytes) (sigPrivKey : Option Bytes) (enc : Clear) : Prop :=
  ∃ dec, clearDecode libs enc.payload = .ok (some dec) ∧ dec.payload = payload ∧
    match sigPrivKey with
    | none => dec.sig = none
    | some key => ∃ sig, dec.sig = some sig ∧ getPublicKey libs key = .ok sig.publicKey

/-- The two bits the decoder reads cannot hold a width of four: an accepted payload comes back
exactly when it is shorter than `2^24` bytes. -/
theorem clearEncode_roundTrips_iff (hs : libs.secp256k1.Lawful) {enc : Clear}
    (h : clearEncode libs randomBytes payload sigPrivKey = .ok enc) :
    RoundTrips libs payload sigPrivKey enc ↔ payload.length < 2 ^ 24 := by
  constructor
  · rintro ⟨dec, hdec, _⟩
    by_contra hlen
    rw [clearDecode_clearEncode_wide hlen h] at hdec
    cases hdec
  · intro hlen
    obtain ⟨dec, hdec, hpay, hsig⟩ := clearDecode_clearEncode hs hlen h
    refine ⟨dec, hdec, hpay, ?_⟩
    have henc := clearEncode_sig h
    cases sigPrivKey with
    | none => simpa [henc] using hsig
    | some key =>
      obtain ⟨sig, hs', hpk⟩ := henc
      rw [hs'] at hsig
      obtain ⟨sig', hd, hk⟩ := Option.map_eq_some_iff.mp hsig
      exact ⟨sig', hd, by rw [hk]; exact hpk⟩

end RoundTrip

/-- Non-zero padding passes the integrity check. -/
theorem validateDataIntegrity_ones (n : Nat) :
    validateDataIntegrity (List.replicate n 1) n = true := by
  cases n with
  | zero => rfl
  | succ n => simp [validateDataIntegrity, List.replicate_succ]

/-- Signed: the greeting comes back with the key of whoever signed it. -/
theorem clearEncode_roundTrips_iff_hello : ∃ enc,
    clearEncode Libs.transparent (List.replicate · 1) [104, 105] (some signingKey) = .ok enc ∧
      (RoundTrips Libs.transparent [104, 105] (some signingKey) enc ↔
        [104, 105].length < 2 ^ 24) := by
  have h := @clearEncode_transparent (List.replicate · 1) [104, 105]
    ⟨by decide, validateDataIntegrity_ones _⟩
  exact ⟨_, h, clearEncode_roundTrips_iff Libs.transparent_lawful.secp256k1 h⟩

/-- Sixteen mebibytes are accepted and do not come back. -/
theorem clearEncode_16MiB_lost : ∃ enc,
    clearEncode Libs.transparent (List.replicate · 1) (List.replicate (2 ^ 24) 0) none = .ok enc ∧
      clearDecode Libs.transparent enc.payload = .ok none ∧
      ¬ RoundTrips Libs.transparent (List.replicate (2 ^ 24) 0) none enc := by
  have h := @clearEncode_unsigned Libs.transparent (List.replicate · 1) (List.replicate (2 ^ 24) 0)
    ⟨by rw [List.length_replicate]; decide, validateDataIntegrity_ones _⟩
  have hnone := clearDecode_clearEncode_wide (by rw [List.length_replicate]; decide) h
  refine ⟨_, h, hnone, ?_⟩
  rintro ⟨dec, hdec, _⟩
  rw [hnone] at hdec
  cases hdec

end Version1
end JsWaku
