import JsWaku.Utils

/-!
# JsWaku.Message.Crypto

The packages the message layer calls: `js-sha3`, `secp256k1`, `ecies-geth` and an AES-GCM engine.
None of their code is here, so each is a parameter, and what the message layer relies on is a
`Lawful` predicate or a field of the structure.

* `Gcm` — AES in counter mode and the GCM tag, the two functions behind both Node's cipher objects
  and `SubtleCrypto`. The counter stream is its own inverse, and a tag has sixteen bytes.
-/

namespace JsWaku

open Js

structure EcdsaSignature where
  signature : Bytes
  recid : Nat
  deriving DecidableEq, Repr

/-- The last argument of `ecdsaRecover` and `publicKeyCreate` asks for a compressed key. -/
structure Secp256k1 where
  ecdsaSign : (hash key : Bytes) → Except Thrown EcdsaSignature
  ecdsaRecover : (signature : Bytes) → (recid : Int) → (hash : Bytes) → Bool → Except Thrown Bytes
  publicKeyCreate : (key : Bytes) → Bool → Except Thrown Bytes

/-- A signature is 64 bytes with a two-bit recovery id, and recovering from it over the same hash
gives the signer's public key. -/
structure Secp256k1.Lawful (s : Secp256k1) : Prop where
  signature_length : ∀ {hash key sig}, s.ecdsaSign hash key = .ok sig → sig.signature.length = 64
  recid_lt : ∀ {hash key sig}, s.ecdsaSign hash key = .ok sig → sig.recid < 4
  recover_sign : ∀ {hash key sig}, s.ecdsaSign hash key = .ok sig →
    ∃ pk, s.publicKeyCreate key false = .ok pk ∧
      s.ecdsaRecover sig.signature sig.recid hash false = .ok pk

/-- `encrypt` is randomised; `seed` stands for what it draws. -/
structure Ecies where
  encrypt : (seed publicKey data : Bytes) → Except Thrown Bytes
  decrypt : (privateKey cipher : Bytes) → Except Thrown Bytes

/-- Length of what `ecies.encrypt` puts around the data: an ephemeral public key, an
initialisation vector and a MAC. -/
def eciesOverhead : Nat := 65 + 16 + 32

/-- Decryption undoes encryption under the private key of the public key used, a public key has 65
bytes, and a cipher text is longer than its clear text. -/
structure Ecies.Lawful (e : Ecies) (s : Secp256k1) : Prop where
  decrypt_encrypt : ∀ {seed sk pk data c}, s.publicKeyCreate sk false = .ok pk →
    e.encrypt seed pk data = .ok c → e.decrypt sk c = .ok data
  key_length : ∀ {seed pk data c}, e.encrypt seed pk data = .ok c → pk.length = 65
  cipher_length : ∀ {seed pk data c}, e.encrypt seed pk data = .ok c →
    c.length = data.length + eciesOverhead

structure Gcm where
  ctr : (key iv data : Bytes) → Bytes
  tag : (key iv cipherText : Bytes) → Bytes
  ctr_length : ∀ key iv data, (ctr key iv data).length = data.length
  ctr_ctr : ∀ key iv data, ctr key iv (ctr key iv data) = data
  tag_length : ∀ key iv cipherText, (tag key iv cipherText).length = 16

/-- `keccak256` returns its digest as a hex string. -/
structure Libs where
  keccak256 : Bytes → String
  secp256k1 : Secp256k1
  ecies : Ecies
  gcm : Gcm

/-- What the message layer assumes of its packages. -/
structure Libs.Lawful (l : Libs) : Prop where
  secp256k1 : l.secp256k1.Lawful
  ecies : l.ecies.Lawful l.secp256k1

/-! ## The laws are consistent

Packages that hide nothing: a cipher text shows whom it is for and what it says, a signature the key
and what it was made for. Under the all-zero key and nonce the tag of the empty text is the one
AES-256-GCM really gives. -/

section Transparent

def zeros (n : Nat) : Bytes := List.replicate n 0

@[simp] theorem zeros_length (n : Nat) : (zeros n).length = n := List.length_replicate

/-- AES-256-GCM tag of the empty text under the zero key and the zero nonce. -/
def gcmZeroTag : Bytes :=
  [0x53, 0x0f, 0x8a, 0xfb, 0xc7, 0x45, 0x36, 0xb9, 0xa9, 0x63, 0xb4, 0xf1, 0xc4, 0xcb, 0x73, 0x8b]

def Gcm.transparent : Gcm where
  ctr _ _ data := data
  tag key iv cipherText :=
    if key = zeros 32 ∧ iv = zeros 12 ∧ cipherText = [] then gcmZeroTag
    else (key ++ zeros 16).take 16
  ctr_length _ _ _ := rfl
  ctr_ctr _ _ _ := rfl
  tag_length key iv cipherText := by
    split
    · rfl
    · simp [zeros]

def xor (a b : Bytes) : Bytes := a.zipWith (· ^^^ ·) b

theorem xor_cancel (a b : Bytes) (h : a.length = b.length) : xor a (xor b b) = a := by
  have hzeros : xor b b = zeros b.length := by
    simp [xor, List.zipWith_self, List.map_const', zeros]
  rw [hzeros, ← h]
  clear hzeros h
  induction a with
  | nil => rfl
  | cons x a ih => simpa [xor, zeros, List.replicate_succ] using ih

/-- Over another hash a signature gives another key. -/
def Secp256k1.transparent : Secp256k1 where
  publicKeyCreate key compressed :=
    if key.length = 32 then .ok (if compressed then 2 :: key else 4 :: (key ++ zeros 32))
    else .error (.raisedBy "secp256k1")
  ecdsaSign hash key :=
    if key.length = 32 ∧ hash.length = 32 then .ok ⟨key ++ hash, 0⟩
    else .error (.raisedBy "secp256k1")
  ecdsaRecover signature recid hash compressed :=
    if signature.length = 64 ∧ 0 ≤ recid ∧ recid < 4 ∧ hash.length = 32 then
      let key := xor (signature.take 32) (xor (signature.drop 32) hash)
      .ok (if compressed then 2 :: key else 4 :: (key ++ zeros 32))
    else .error (.raisedBy "secp256k1")

def Ecies.transparent : Ecies where
  encrypt _ publicKey data :=
    if publicKey.length = 65 then .ok (publicKey ++ zeros 48 ++ data)
    else .error (.raisedBy "ecies-geth")
  decrypt privateKey cipher :=
    if privateKey.length = 32 ∧ cipher.take 65 = 4 :: (privateKey ++ zeros 32) then
      .ok (cipher.drop 113)
    else .error (.raisedBy "ecies-geth")

def digest (message : Bytes) : Bytes := (message ++ zeros 32).take 32

def Libs.transparent : Libs :=
  ⟨fun message => bufToHex (digest message), .transparent, .transparent, .transparent⟩

theorem Libs.transparent_sign {key : Bytes} (h : key.length = 32) (message : Bytes) :
    transparent.secp256k1.ecdsaSign (hexToBuf (.text (transparent.keccak256 message))) key =
      .ok ⟨key ++ digest message, 0⟩ := by
  simp [transparent, Secp256k1.transparent, hexToBuf_bufToHex, digest, h]

theorem Secp256k1.transparent_lawful : Secp256k1.transparent.Lawful where
  signature_length := by
    intro hash key sig h
    simp only [transparent] at h
    split at h
    · rename_i hlen; cases h; simp [hlen.1, hlen.2]
    · cases h
  recid_lt := by
    intro hash key sig h
    simp only [transparent] at h
    split at h
    · cases h; simp
    · cases h
  recover_sign := by
    intro hash key sig h
    simp only [transparent] at h
    split at h
    · rename_i hlen; cases h
      obtain ⟨hk, hh⟩ := hlen
      have htake : (key ++ hash).take 32 = key := List.take_left' hk
      have hdrop : (key ++ hash).drop 32 = hash := List.drop_left' hk
      have hxor : xor key (xor hash hash) = key := xor_cancel key hash (hk.trans hh.symm)
      exact ⟨4 :: (key ++ zeros 32), by simp [transparent, hk],
        by simp [transparent, hk, hh, htake, hdrop, hxor]⟩
    · cases h

theorem Ecies.transparent_lawful : Ecies.transparent.Lawful .transparent where
  decrypt_encrypt := by
    intro seed sk pk data c hpk h
    simp only [Secp256k1.transparent] at hpk
    split at hpk
    · rename_i hsk; cases hpk
      have hlen : (4 :: (sk ++ zeros 32)).length = 65 := by simp [hsk]
      simp only [transparent, Bool.false_eq_true, ite_false, hlen, ite_true] at h
      cases h
      have htake : ((4 :: (sk ++ zeros 32)) ++ zeros 48 ++ data).take 65 = 4 :: (sk ++ zeros 32) := by
        rw [List.append_assoc]; exact List.take_left' hlen
      have hdrop : ((4 :: (sk ++ zeros 32)) ++ zeros 48 ++ data).drop 113 = data :=
        List.drop_left' (by simp [hsk])
      simp only [transparent, hsk, htake, hdrop, and_self, ite_true]
    · cases hpk
  key_length := by
    intro seed pk data c h
    simp only [transparent] at h
    split at h
    · assumption
    · cases h
  cipher_length := by
    intro seed pk data c h
    simp only [transparent] at h
    split at h
    · rename_i hk; cases h; simp [hk, eciesOverhead]; omega
    · cases h

theorem Libs.transparent_lawful : Libs.transparent.Lawful :=
  ⟨Secp256k1.transparent_lawful, Ecies.transparent_lawful⟩

end Transparent

end JsWaku
