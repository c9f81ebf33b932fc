import JsWaku.Utils
import JsWaku.Message.Crypto
import Mathlib.Data.Nat.Log

/-!
# JsWaku.Message.Version1

`lib/waku_message/version_1.ts`: the clear envelope a version 1 payload is encrypted from.

`clearEncode` lays out `flags | size | payload | padding | [signature, recid]`; the two low bits of
the flag byte are the width of the size field, the third says whether a signature follows.
`clearDecode` reads it back. Everything random or cryptographic comes in as a parameter.
-/

namespace JsWaku
namespace Version1

open Js

def flagsLength : Nat := 1
def flagMask : Nat := 3
def isSignedMask : Nat := 4
def paddingTarget : Nat := 256
def signatureLength : Nat := 65

structure Signature where
  signature : Bytes
  publicKey : Bytes
  deriving DecidableEq, Repr

/-- What `clearEncode` and `clearDecode` return: bytes and, for a signed message, a signature. -/
structure Clear where
  payload : Bytes
  sig : Option Signature
  deriving DecidableEq, Repr

/-- `msg[0] |= mask` -/
def orFirst (msg : Bytes) (mask : Nat) : Bytes := msg.modifyHead (· ||| UInt8.ofNat mask)

/-- `for (let i = payload.length; i >= 256; i /= 256) s++`. The division is exact in the source;
`i >= 256` only looks at the quotient, so the remainder may be dropped. -/
def payloadSizeLoop (s i : Nat) : Nat :=
  if 256 ≤ i then payloadSizeLoop (s + 1) (i / 256) else s
termination_by i

def getSizeOfPayloadSizeField (payload : Bytes) : Nat := payloadSizeLoop 1 payload.length

def addPayloadSizeField (msg payload : Bytes) : Except Thrown Bytes := do
  let fieldSize := getSizeOfPayloadSizeField payload
  let field ← writeUInt32LE payload.length
  let field := slice field 0 fieldSize
  return orFirst (msg ++ field) fieldSize

def validateDataIntegrity (value : Bytes) (expectedSize : Nat) : Bool :=
  if value.length ≠ expectedSize then false
  else !(decide (expectedSize > 3) && value == List.replicate value.length 0)

def getPublicKey (libs : Libs) (privateKey : Bytes) : Except Thrown Bytes :=
  libs.secp256k1.publicKeyCreate privateKey false

def clearEncode (libs : Libs) (randomBytes : Nat → Bytes) (messagePayload : Bytes)
    (sigPrivKey : Option Bytes) : Except Thrown Clear := do
  let envelope ← addPayloadSizeField [0] messagePayload
  let envelope := envelope ++ messagePayload
  let rawSize := flagsLength + getSizeOfPayloadSizeField messagePayload + messagePayload.length
  let rawSize := if sigPrivKey.isSome then rawSize + signatureLength else rawSize
  let paddingSize := paddingTarget - rawSize % paddingTarget
  let pad := randomBytes paddingSize
  if validateDataIntegrity pad paddingSize = false then
    throw (.error ("failed to generate random padding of size " ++ toString paddingSize))
  let envelope := envelope ++ pad
  match sigPrivKey with
  | none => return ⟨envelope, none⟩
  | some key =>
    let envelope := orFirst envelope isSignedMask
    let hash := libs.keccak256 envelope
    let s ← libs.secp256k1.ecdsaSign (hexToBuf (.text hash)) key
    let publicKey ← getPublicKey libs key
    return ⟨envelope ++ s.signature ++ [UInt8.ofNat s.recid], some ⟨s.signature, publicKey⟩⟩

def getSignature (message : Bytes) : Bytes :=
  slice message (message.length - signatureLength) message.length

def getHash (libs : Libs) (message : Bytes) (isSigned : Bool) : String :=
  if isSigned then libs.keccak256 (slice message 0 (message.length - signatureLength))
  else libs.keccak256 message

def ecRecoverPubKey (libs : Libs) (messageHash : String) (signature : Bytes) :
    Except Thrown Bytes := do
  let recovery ← readIntBE1 (sliceFrom signature 64) 0
  libs.secp256k1.ecdsaRecover (slice signature 0 64) recovery (hexToBuf (.text messageHash)) false

/-- `.ok none` is the early `return;` on a size field of width zero. -/
def clearDecode (libs : Libs) (message : Bytes) : Except Thrown (Option Clear) := do
  let flags ← readUIntLE message 0 1
  let sizeOfPayloadSizeField := flags &&& flagMask
  if sizeOfPayloadSizeField = 0 then return none
  let payloadSize ← readUIntLE message flagsLength sizeOfPayloadSizeField
  let start := flagsLength + sizeOfPayloadSizeField
  let payload := slice message start (start + payloadSize)
  let flags ← readUIntLE message 0 1
  let isSigned := flags &&& isSignedMask == isSignedMask
  if isSigned then
    let signature := getSignature message
    let hash := getHash libs message isSigned
    let publicKey ← ecRecoverPubKey libs hash signature
    return some ⟨payload, some ⟨signature, publicKey⟩⟩
  return some ⟨payload, none⟩

theorem payloadSizeLoop_eq (s i : Nat) : payloadSizeLoop s i = s + Nat.log 256 i := by
  induction s, i using payloadSizeLoop.induct with
  | case1 s i h ih =>
    rw [payloadSizeLoop, if_pos h, ih, Nat.log_of_one_lt_of_le (by omega : 1 < 256) h]
    omega
  | case2 s i h =>
    rw [payloadSizeLoop, if_neg h, Nat.log_of_lt (by omega), Nat.add_zero]

theorem size_eq_log (payload : Bytes) :
    getSizeOfPayloadSizeField payload = Nat.log 256 payload.length + 1 := by
  rw [getSizeOfPayloadSizeField, payloadSizeLoop_eq, Nat.add_comm]

theorem size_pos (payload : Bytes) : 0 < getSizeOfPayloadSizeField payload := by
  rw [size_eq_log]; omega

/-- The field is just wide enough for the length it holds. -/
theorem length_lt_pow_size (payload : Bytes) :
    payload.length < 256 ^ getSizeOfPayloadSizeField payload := by
  rw [size_eq_log]; exact Nat.lt_pow_succ_log_self (by omega) _

theorem size_le_iff {payload : Bytes} {w : Nat} (hw : 0 < w) :
    getSizeOfPayloadSizeField payload ≤ w ↔ payload.length < 256 ^ w := by
  obtain ⟨w, rfl⟩ : ∃ v, w = v + 1 := ⟨w - 1, by omega⟩
  rw [size_eq_log, Nat.add_le_add_iff_right, ← Nat.lt_succ_iff]
  exact ⟨Nat.lt_pow_of_log_lt (by omega), Nat.log_lt_of_lt_pow' (by omega)⟩

/-! ## What a successful encoding looks like -/

/-- The envelope without its signature. -/
def envelopeBody (width : Nat) (signed : Bool) (payload pad : Bytes) : Bytes :=
  (UInt8.ofNat width ||| (if signed then 4 else 0)) ::
    (leBytes width payload.length ++ payload ++ pad)

theorem addPayloadSizeField_ok {payload : Bytes} (h : payload.length < 2 ^ 32) :
    addPayloadSizeField [0] payload =
      .ok (UInt8.ofNat (getSizeOfPayloadSizeField payload) ::
        leBytes (getSizeOfPayloadSizeField payload) payload.length) := by
  have hw : getSizeOfPayloadSizeField payload ≤ 4 := (size_le_iff (by omega)).mpr (by simpa using h)
  have hs : slice (leBytes 4 payload.length) 0 (getSizeOfPayloadSizeField payload : Int) =
      leBytes (getSizeOfPayloadSizeField payload) payload.length := by
    rw [slice, sliceBound_of_nonneg (by simpa using hw), take_leBytes hw]
    simp [sliceBound]
  rw [addPayloadSizeField, writeUInt32LE_ok h]
  simp [hs, orFirst, pure, Except.pure]

theorem addPayloadSizeField_err {payload : Bytes} (h : ¬ payload.length < 2 ^ 32) :
    addPayloadSizeField [0] payload = .error .rangeError := by
  rw [addPayloadSizeField, writeUInt32LE_err h]; rfl

/-- The padding `clearEncode` asks for. -/
def paddingSize (payload : Bytes) (signed : Bool) : Nat :=
  let rawSize := flagsLength + getSizeOfPayloadSizeField payload + payload.length
  paddingTarget - (if signed then rawSize + signatureLength else rawSize) % paddingTarget

section Encode

variable {libs : Libs} {randomBytes : Nat → Bytes} {payload : Bytes}

/-- The two checks an encoding passes: the length fits the size field's buffer, and the padding
drawn is not all zeros. -/
structure Accepted (randomBytes : Nat → Bytes) (payload : Bytes) (signed : Bool) : Prop where
  length_lt : payload.length < 2 ^ 32
  pad_valid : validateDataIntegrity (randomBytes (paddingSize payload signed))
    (paddingSize payload signed) = true

/-- The envelope before it is signed, over the padding drawn for it. -/
def bodyOf (randomBytes : Nat → Bytes) (payload : Bytes) (signed : Bool) : Bytes :=
  envelopeBody (getSizeOfPayloadSizeField payload) signed payload
    (randomBytes (paddingSize payload signed))

theorem clearEncode_accepted {sigPrivKey : Option Bytes} {enc : Clear}
    (h : clearEncode libs randomBytes payload sigPrivKey = .ok enc) :
    Accepted randomBytes payload sigPrivKey.isSome := by
  by_cases hlen : payload.length < 2 ^ 32
  · refine ⟨hlen, ?_⟩
    by_contra hpad
    have hpad := Bool.eq_false_iff.mpr hpad
    simp only [paddingSize] at hpad
    simp [clearEncode, addPayloadSizeField_ok hlen, hpad, throw, throwThe, MonadExceptOf.throw] at h
  · simp only [clearEncode, addPayloadSizeField_err hlen, error_bind] at h
    cases h

theorem clearEncode_unsigned (h : Accepted randomBytes payload false) :
    clearEncode libs randomBytes payload none = .ok ⟨bodyOf randomBytes payload false, none⟩ := by
  have hpad := h.pad_valid
  simp only [paddingSize, Bool.false_eq_true, ite_false] at hpad
  simp [clearEncode, addPayloadSizeField_ok h.length_lt, hpad, bodyOf, envelopeBody, paddingSize,
    pure, Except.pure]

theorem clearEncode_signed (h : Accepted randomBytes payload true) (key : Bytes) :
    clearEncode libs randomBytes payload (some key) = (do
      let body := bodyOf randomBytes payload true
      let s ← libs.secp256k1.ecdsaSign (hexToBuf (.text (libs.keccak256 body))) key
      let publicKey ← getPublicKey libs key
      return ⟨body ++ s.signature ++ [UInt8.ofNat s.recid], some ⟨s.signature, publicKey⟩⟩) := by
  have hpad := h.pad_valid
  simp only [paddingSize, ite_true] at hpad
  simp [clearEncode, addPayloadSizeField_ok h.length_lt, hpad, bodyOf, envelopeBody, paddingSize,
    orFirst, isSignedMask]

/-- Everything a signed encoding went through. -/
theorem clearEncode_signed_cases {key : Bytes} {enc : Clear}
    (h : clearEncode libs randomBytes payload (some key) = .ok enc) :
    ∃ s pk, libs.secp256k1.ecdsaSign
        (hexToBuf (.text (libs.keccak256 (bodyOf randomBytes payload true)))) key = .ok s ∧
      getPublicKey libs key = .ok pk ∧
      enc = ⟨bodyOf randomBytes payload true ++ s.signature ++ [UInt8.ofNat s.recid],
        some ⟨s.signature, pk⟩⟩ := by
  rw [clearEncode_signed (clearEncode_accepted h)] at h
  obtain ⟨s, hs, h⟩ := bind_eq_ok h
  obtain ⟨pk, hpk, h⟩ := bind_eq_ok h
  cases h
  exact ⟨s, pk, hs, hpk, rfl⟩

end Encode

def signingKey : Bytes := List.replicate 32 3

theorem clearEncode_transparent {randomBytes : Nat → Bytes} {payload : Bytes}
    (h : Accepted randomBytes payload true) :
    clearEncode Libs.transparent randomBytes payload (some signingKey) =
      let body := bodyOf randomBytes payload true
      .ok ⟨body ++ (signingKey ++ digest body) ++ [0],
        some ⟨signingKey ++ digest body, 4 :: (signingKey ++ zeros 32)⟩⟩ := by
  rw [clearEncode_signed h]
  dsimp only
  rw [Libs.transparent_sign rfl]
  rfl

end Version1
end JsWaku
