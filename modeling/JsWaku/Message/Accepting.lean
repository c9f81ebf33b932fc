import JsWaku.Message.WakuMessage

/-!
# JsWaku.Message.Accepting

What `clearDecode` accepts, and what it returns of the signature.

* `WellFormed` — a byte string that is `flags | size | payload | rest`, the size being the payload's
  and the rest long enough for a signature when there is one.
* `clearDecode_accepts_iff` — `slice` clamps where the size field promises too much, so a payload
  that is returned is such a part exactly when the bytes hold all that is promised.
* `clearDecode_signature` — the receiver's signature is the sender's with the recovery id behind it.
-/

namespace JsWaku
namespace Version1

open Js

def flagOf (b : Bytes) : Nat := (b.headD 0).toNat

/-- The width of the size field, the size in it and the bytes a signature takes, as `b` has them. -/
def declaredWidth (b : Bytes) : Nat := flagOf b &&& flagMask

def declaredSize (b : Bytes) : Nat := leVal ((b.drop flagsLength).take (declaredWidth b))

def declaredTrailer (b : Bytes) : Nat :=
  if flagOf b &&& isSignedMask = isSignedMask then signatureLength else 0

structure WellFormed (b payload : Bytes) : Prop where
  width_pos : 0 < declaredWidth b
  width_le : declaredWidth b ≤ 3
  size : declaredSize b = payload.length
  parts : ∃ size rest, b = b.take flagsLength ++ size ++ payload ++ rest ∧
    size.length = declaredWidth b ∧ declaredTrailer b ≤ rest.length ∧ b ≠ []

/-- The bytes hold all that the flags and the size field promise. -/
def Fits (b : Bytes) : Prop :=
  flagsLength + declaredWidth b + declaredSize b + declaredTrailer b ≤ b.length

instance (b : Bytes) : Decidable (Fits b) := inferInstanceAs (Decidable (_ ≤ _))

theorem declaredWidth_le (b : Bytes) : declaredWidth b ≤ 3 := Nat.and_le_right

theorem WellFormed.fits {b payload : Bytes} (h : WellFormed b payload) : Fits b := by
  obtain ⟨size, rest, heq, hsize, htrailer, hne⟩ := h.parts
  have hpos : 0 < b.length := List.length_pos_iff.mpr hne
  have hlength := congrArg List.length heq
  simp only [List.length_append, List.length_take, flagsLength] at hlength
  rw [Fits, h.size]
  unfold flagsLength
  omega

section

variable {libs : Libs} {b : Bytes} {dec : Clear}

/-- Behind the size field nothing is checked any more, apart from the signature. -/
theorem clearDecode_sized (hw : 0 < declaredWidth b)
    (hle : flagsLength + declaredWidth b ≤ b.length) :
    clearDecode libs b =
      let payload := (b.drop (flagsLength + declaredWidth b)).take (declaredSize b)
      if flagOf b &&& isSignedMask = isSignedMask then do
        let publicKey ← ecRecoverPubKey libs (getHash libs b true) (getSignature b)
        return some ⟨payload, some ⟨getSignature b, publicKey⟩⟩
      else .ok (some ⟨payload, none⟩) := by
  cases b with
  | nil =>
    unfold flagsLength at hle
    simp only [List.length_nil] at hle
    omega
  | cons flag rest =>
    have hmask : ¬ flag.toNat &&& flagMask = 0 := Nat.ne_of_gt hw
    have hread : readUIntLE (flag :: rest) flagsLength (flag.toNat &&& flagMask) =
        .ok (declaredSize (flag :: rest)) := if_pos hle
    have hslice := slice_window hle (declaredSize (flag :: rest))
    simp only [clearDecode, readUIntLE_first, ok_bind, hmask, ite_false, hread]
    simp only [declaredWidth, flagOf, List.headD_cons] at hslice ⊢
    rw [hslice]
    by_cases hsigned : flag.toNat &&& isSignedMask = isSignedMask
    · simp [hsigned]
    · simp [hsigned, pure, Except.pure]

/-- Everything a decoding that returned a payload went through. -/
theorem clearDecode_cases (h : clearDecode libs b = .ok (some dec)) :
    0 < declaredWidth b ∧ flagsLength + declaredWidth b ≤ b.length ∧
      dec.payload = (b.drop (flagsLength + declaredWidth b)).take (declaredSize b) := by
  have hnot : ¬ Malformed libs b := by
    rw [← throws_clearDecode, h]
    exact not_throws_ok _
  cases b with
  | nil => cases h
  | cons flag rest =>
    by_cases hw : flag.toNat &&& flagMask = 0
    · simp [clearDecode, hw, pure, Except.pure] at h
    · have hpos : 0 < declaredWidth (flag :: rest) := Nat.pos_of_ne_zero hw
      have hle : flagsLength + declaredWidth (flag :: rest) ≤ (flag :: rest).length := by
        by_contra hlt
        refine hnot (.size hw ?_)
        simp only [declaredWidth, flagOf, List.headD_cons, List.length_cons, flagsLength] at hlt
        omega
      refine ⟨hpos, hle, ?_⟩
      rw [clearDecode_sized hpos hle] at h
      simp only at h
      split at h
      · obtain ⟨publicKey, _, h⟩ := bind_eq_ok h
        cases h
        rfl
      · cases h
        rfl

theorem wellFormed_of_fits (h : clearDecode libs b = .ok (some dec)) (hfits : Fits b) :
    WellFormed b dec.payload := by
  obtain ⟨hpos, hle, hpayload⟩ := clearDecode_cases h
  unfold Fits at hfits
  have hlength : dec.payload.length = declaredSize b := by
    rw [hpayload, List.length_take, List.length_drop]
    omega
  have hparts : b = b.take flagsLength ++ (b.drop flagsLength).take (declaredWidth b) ++
      dec.payload ++ b.drop (flagsLength + declaredWidth b + declaredSize b) := by
    rw [hpayload, ← List.take_add, ← List.take_add, List.take_append_drop]
  refine ⟨hpos, declaredWidth_le b, hlength.symm, _, _, hparts, ?_, ?_, ?_⟩
  · rw [List.length_take, List.length_drop]
    omega
  · rw [List.length_drop]
    omega
  · rintro rfl
    unfold flagsLength at hle
    simp only [List.length_nil] at hle
    omega

theorem clearDecode_ne_none (hw : 0 < declaredWidth b) : clearDecode libs b ≠ .ok none := by
  intro h
  have hnot : ¬ Throws (clearDecode libs b) := by
    rw [h]
    exact not_throws_ok _
  by_cases hle : flagsLength + declaredWidth b ≤ b.length
  · rw [clearDecode_sized hw hle] at h
    simp only at h
    split at h
    · obtain ⟨publicKey, _, h⟩ := bind_eq_ok h
      cases h
    · cases h
  · rw [throws_clearDecode] at hnot
    cases b with
    | nil => exact hnot .empty
    | cons flag rest =>
      refine hnot (.size (Nat.ne_of_gt hw) ?_)
      simp only [declaredWidth, flagOf, List.headD_cons, List.length_cons, flagsLength] at hle
      omega

/-- Only well-formed byte strings give a payload exactly where the bytes hold what they promise, or
give none at all. -/
theorem clearDecode_accepts_iff (libs : Libs) (b : Bytes) :
    (∀ dec, clearDecode libs b = .ok (some dec) → WellFormed b dec.payload) ↔
      declaredWidth b = 0 ∨ Malformed libs b ∨ Fits b := by
  constructor
  · intro h
    by_cases hw : declaredWidth b = 0
    · exact .inl hw
    · refine .inr ?_
      rw [← throws_clearDecode]
      cases hres : clearDecode libs b with
      | error e => exact .inl (throws_error e)
      | ok res =>
        cases res with
        | none => exact absurd hres (clearDecode_ne_none (Nat.pos_of_ne_zero hw))
        | some dec => exact .inr (h dec hres).fits
  · rintro (hw | hbad | hfits) dec hdec
    · exact absurd hw (Nat.ne_of_gt (clearDecode_cases hdec).1)
    · rw [← throws_clearDecode, hdec] at hbad
      exact absurd hbad (not_throws_ok _)
    · exact wellFormed_of_fits hdec hfits

end

/-- A payload of one byte where five are promised. -/
theorem clearDecode_accepts_truncated :
    clearDecode Libs.transparent [1, 5, 170] = .ok (some ⟨[170], none⟩) ∧
      ¬ WellFormed [1, 5, 170] [170] := by
  refine ⟨by decide, fun h => ?_⟩
  exact absurd h.fits (by decide)

/-! ## The signature on both sides -/

section

variable {libs : Libs} {randomBytes : Nat → Bytes} {payload key : Bytes} {enc : Clear}

/-- The receiver of an encoding sees the signature its sender saw. -/
def SignaturesAgree (libs : Libs) (enc : Clear) : Prop :=
  ∃ dec, clearDecode libs enc.payload = .ok (some dec) ∧ dec.sig = enc.sig

theorem clearDecode_signature (hs : libs.secp256k1.Lawful) (hlen : payload.length < 2 ^ 24)
    (h : clearEncode libs randomBytes payload (some key) = .ok enc) :
    ∃ sent recid, enc.sig = some sent ∧ sent.signature.length = 64 ∧
      clearDecode libs enc.payload =
        .ok (some ⟨payload, some ⟨sent.signature ++ [recid], sent.publicKey⟩⟩) := by
  obtain ⟨e, rfl, hbytes, s, pk, hsign, hpk, htrailer, hsig⟩ := clearEncode_envelope hs hlen h
  refine ⟨⟨s.signature, pk⟩, UInt8.ofNat s.recid, hsig, hs.signature_length hsign, ?_⟩
  rw [hbytes, clearDecode_bytes]
  simp only [htrailer, ecRecoverPubKey_sign hs hsign hpk, ok_bind]
  rfl

/-- They never do: the sender has 64 bytes and the receiver 65. -/
theorem signatures_disagree (hs : libs.secp256k1.Lawful) (hlen : payload.length < 2 ^ 24)
    (h : clearEncode libs randomBytes payload (some key) = .ok enc) : ¬ SignaturesAgree libs enc := by
  obtain ⟨sent, recid, hsent, _, hdec⟩ := clearDecode_signature hs hlen h
  rintro ⟨dec, hdec', hsame⟩
  rw [hdec] at hdec'
  cases hdec'
  rw [hsent] at hsame
  have hlength := congrArg (fun sig => sig.map fun s : Signature => s.signature.length) hsame
  simp at hlength

end

section

theorem clearEncode_signingKey : ∃ enc, clearEncode Libs.transparent (List.replicate · 1) [104, 105]
    (some signingKey) = .ok enc :=
  ⟨_, clearEncode_transparent ⟨by decide, validateDataIntegrity_ones _⟩⟩

theorem signatures_disagree_hello : ∃ enc,
    clearEncode Libs.transparent (List.replicate · 1) [104, 105] (some signingKey) = .ok enc ∧
      ¬ SignaturesAgree Libs.transparent enc := by
  obtain ⟨enc, henc⟩ := clearEncode_signingKey
  exact ⟨enc, henc, signatures_disagree Libs.transparent_lawful.secp256k1 (by decide) henc⟩

theorem hello_signatures_differ : ∃ enc dec,
    clearEncode Libs.transparent (List.replicate · 1) [104, 105] (some signingKey) = .ok enc ∧
      clearDecode Libs.transparent enc.payload = .ok (some dec) ∧
      enc.sig.map (fun sig => sig.signature.length) = some 64 ∧
      dec.sig.map (fun sig => sig.signature.length) = some 65 := by
  obtain ⟨enc, henc⟩ := clearEncode_signingKey
  obtain ⟨sent, recid, hsent, hlength, hdec⟩ :=
    clearDecode_signature Libs.transparent_lawful.secp256k1 (by decide) henc
  exact ⟨enc, _, henc, hdec, by simp [hsent, hlength], by simp [hlength]⟩

end

end Version1

open Js Version1 SymmetricCrypto

section

variable {libs : Libs} {rt : Runtime} {draws : Draws}

/-- The message the sender keeps shows the signature of the encoding, the receiver another. -/
theorem fromBytes_signature (hs : libs.secp256k1.Lawful) {payload key : Bytes}
    {contentTopic : String} {opts : Options} {m : WakuMessage} (hlen : payload.length < 2 ^ 24)
    (hkey : opts.sigPrivKey = some key) (hversion : m.version = some 1)
    (h : fromBytes libs rt draws payload contentTopic (some opts) = .ok m) :
    ∃ enc dec, clearEncode libs draws.randomBytes payload (some key) = .ok enc ∧
      clearDecode libs enc.payload = .ok (some dec) ∧
      m.signaturePublicKey = dec.sig.map Signature.publicKey ∧
      m.signature ≠ dec.sig.map Signature.signature := by
  obtain ⟨timestamp, p, sig, version, _, hsealed, rfl⟩ := fromBytes_cases h
  have hencoded : ∃ enc, clearEncode libs draws.randomBytes payload (some key) = .ok enc ∧
      enc.sig = sig := by
    cases hsealed with
    | clear => cases hversion
    | asymmetric _ _ henc => exact ⟨_, hkey ▸ henc, rfl⟩
    | symmetric _ _ henc => exact ⟨_, hkey ▸ henc, rfl⟩
  obtain ⟨enc, henc, rfl⟩ := hencoded
  obtain ⟨sent, recid, hsent, _, hdec⟩ := clearDecode_signature hs hlen henc
  refine ⟨enc, _, henc, hdec, ?_, ?_⟩
  · rw [hsent]
    rfl
  · rw [hsent]
    intro hsame
    have hlength := congrArg (Option.map List.length) hsame
    simp at hlength

end

end JsWaku
