import JsWaku.Utils
import JsWaku.Message.Crypto

/-!
# JsWaku.Message.Symmetric

The two symmetric back ends, `symmetric/node.ts` and `symmetric/browser.ts`, and the slicing around
them in `version_1.ts`.

Both take the cipher text with its tag appended. Node's decipher is handed the tag apart, accepts
tags of 4, 8 and 12 to 16 bytes and compares a short one with a prefix of the true tag.
`SubtleCrypto` splits off sixteen bytes itself. The splits agree from 28 bytes on; below that the
bounds of the Node slices go negative and wrap from the end (`split_short`).

* `BackendsAgree` — both paths of `decryptSymmetric` reject, or both accept with one plaintext, and
  neither takes a tag of fewer than sixteen bytes.
* `backendsAgree_iff` — that holds exactly when the input is no `ForgedShortTag`.
-/

namespace JsWaku
namespace SymmetricCrypto

open Js

def symmetricKeySize : Nat := 32
def ivSize : Nat := 12
def tagSize : Nat := 16

/-- `interface Symmetric`, less its generators: what they draw is passed in. -/
structure Backend where
  encrypt : (iv key clearText : Bytes) → Except Thrown Bytes
  decrypt : (iv key cipherText : Bytes) → Except Thrown Bytes

namespace Node

/-- `createCipheriv` and `createDecipheriv` for `aes-256-gcm` check the key and the nonce. -/
def createCipheriv (key iv : Bytes) : Except Thrown Unit :=
  if key.length = symmetricKeySize ∧ iv ≠ [] then .ok () else .error (.raisedBy "crypto")

/-- `decipher.setAuthTag(tag)` without an `authTagLength` -/
def setAuthTag (tag : Bytes) : Except Thrown Unit :=
  if tag.length = 4 ∨ tag.length = 8 ∨ (12 ≤ tag.length ∧ tag.length ≤ 16) then .ok ()
  else .error (.raisedBy "crypto")

/-- `decipher.final()` compares as many bytes of the tag as were set. -/
def final (gcm : Gcm) (key iv cipherText tag : Bytes) : Except Thrown Bytes :=
  if tag <+: gcm.tag key iv cipherText then .ok [] else .error (.raisedBy "crypto")

def encrypt (gcm : Gcm) (iv key clearText : Bytes) : Except Thrown Bytes := do
  createCipheriv key iv
  let a := gcm.ctr key iv clearText
  let b : Bytes := []
  let tag := gcm.tag key iv (a ++ b)
  return a ++ b ++ tag

def decrypt (gcm : Gcm) (iv key data : Bytes) : Except Thrown Bytes := do
  let tagStart : Int := data.length - tagSize
  let cipherText := slice data 0 tagStart
  let tag := sliceFrom data tagStart
  createCipheriv key iv
  setAuthTag tag
  let a := gcm.ctr key iv cipherText
  let b ← final gcm key iv cipherText tag
  return a ++ b

end Node

namespace Browser

/-- `subtle.importKey('raw', key, 'AES-GCM')` takes the three AES key sizes. -/
def importKey (key : Bytes) : Except Thrown Unit :=
  if key.length = 16 ∨ key.length = 24 ∨ key.length = 32 then .ok ()
  else .error (.raisedBy "SubtleCrypto")

/-- `subtle.decrypt` with the default tag length. -/
def subtleDecrypt (gcm : Gcm) (iv key data : Bytes) : Except Thrown Bytes :=
  if data.length < tagSize then .error (.raisedBy "SubtleCrypto")
  else
    let cipherText := data.take (data.length - tagSize)
    if data.drop (data.length - tagSize) = gcm.tag key iv cipherText then
      .ok (gcm.ctr key iv cipherText)
    else .error (.raisedBy "SubtleCrypto")

def encrypt (gcm : Gcm) (iv key clearText : Bytes) : Except Thrown Bytes := do
  importKey key
  let a := gcm.ctr key iv clearText
  return a ++ gcm.tag key iv a

def decrypt (gcm : Gcm) (iv key cipherText : Bytes) : Except Thrown Bytes := do
  importKey key
  subtleDecrypt gcm iv key cipherText

end Browser

/-- `symmetric` holds whichever module could be loaded. -/
inductive Runtime where
  | node
  | browser
  deriving DecidableEq, Repr

def symmetric (gcm : Gcm) : Runtime → Backend
  | .node => ⟨Node.encrypt gcm, Node.decrypt gcm⟩
  | .browser => ⟨Browser.encrypt gcm, Browser.decrypt gcm⟩

/-- `iv` is what `symmetric.generateIv()` draws. -/
def encryptSymmetric (s : Backend) (iv data : Bytes) (key : BytesOrHex) : Except Thrown Bytes := do
  let cipher ← s.encrypt iv (hexToBuf key) data
  return cipher ++ iv

def decryptSymmetric (s : Backend) (payload : Bytes) (key : BytesOrHex) : Except Thrown Bytes :=
  let ivStart : Int := payload.length - ivSize
  let cipher := slice payload 0 ivStart
  let iv := sliceFrom payload ivStart
  s.decrypt iv (hexToBuf key) cipher

section

variable {gcm : Gcm} {key iv cipherText tag : Bytes}

/-- Where `payload.slice(0, payload.length - k)` really cuts. -/
def cut (k len : Nat) : Nat := sliceBound len ((len : Int) - k)

theorem cut_of_le {k len : Nat} (h : k ≤ len) : cut k len = len - k := sliceBound_sub h

theorem cut_le (k len : Nat) : cut k len ≤ len := sliceBound_le _ _

theorem slice_cut (k : Nat) (b : Bytes) : slice b 0 ((b.length : Int) - k) = b.take (cut k b.length) := by
  simp [slice, cut, sliceBound]

theorem sliceFrom_cut (k : Nat) (b : Bytes) :
    sliceFrom b ((b.length : Int) - k) = b.drop (cut k b.length) := rfl

/-- Node's decipher on `cipherText | tag`, when the slices cut between the two. -/
theorem node_decrypt_append (hcut : cut tagSize (cipherText ++ tag).length = cipherText.length) :
    Node.decrypt gcm iv key (cipherText ++ tag) = (do
      Node.createCipheriv key iv
      Node.setAuthTag tag
      let b ← Node.final gcm key iv cipherText tag
      return gcm.ctr key iv cipherText ++ b) := by
  simp only [Node.decrypt, slice_cut, sliceFrom_cut, hcut, List.take_left, List.drop_left]

/-- What Node's decipher takes. -/
structure NodeAccepts (gcm : Gcm) (key iv cipherText tag : Bytes) : Prop where
  keyLength : key.length = symmetricKeySize
  nonce : iv ≠ []
  tagLength : tag.length = 4 ∨ tag.length = 8 ∨ (12 ≤ tag.length ∧ tag.length ≤ 16)
  matching : tag <+: gcm.tag key iv cipherText

theorem node_decrypt_accepts (hcut : cut tagSize (cipherText ++ tag).length = cipherText.length)
    (h : NodeAccepts gcm key iv cipherText tag) :
    Node.decrypt gcm iv key (cipherText ++ tag) = .ok (gcm.ctr key iv cipherText) := by
  rw [node_decrypt_append hcut, Node.createCipheriv, if_pos ⟨h.keyLength, h.nonce⟩,
    Node.setAuthTag, if_pos h.tagLength, Node.final, if_pos h.matching]
  simp [pure, Except.pure]

theorem node_decrypt_throws (hcut : cut tagSize (cipherText ++ tag).length = cipherText.length)
    (h : ¬ NodeAccepts gcm key iv cipherText tag) :
    Throws (Node.decrypt gcm iv key (cipherText ++ tag)) := by
  rw [node_decrypt_append hcut, Node.createCipheriv]
  split
  · rename_i hkey
    rw [ok_bind, Node.setAuthTag]
    split
    · rename_i htag
      have hdiffers : ¬ tag <+: gcm.tag key iv cipherText := fun hmatching =>
        h ⟨hkey.1, hkey.2, htag, hmatching⟩
      rw [ok_bind, Node.final, if_neg hdiffers]
      exact throws_error _
    · exact throws_error _
  · exact throws_error _

/-- `decryptSymmetric` on `cipher | iv`, when the slices cut between the two. -/
theorem decryptSymmetric_append (s : Backend) {cipher : Bytes}
    (hcut : cut ivSize (cipher ++ iv).length = cipher.length) :
    decryptSymmetric s (cipher ++ iv) (.bytes key) = s.decrypt iv key cipher := by
  simp only [decryptSymmetric, slice_cut, sliceFrom_cut, hcut, List.take_left, List.drop_left,
    hexToBuf]

/-- Key lengths a back end takes. -/
def acceptsKey : Runtime → Bytes → Prop
  | .node, key => key.length = 32
  | .browser, key => key.length = 16 ∨ key.length = 24 ∨ key.length = 32

/-- With a whole tag, both back ends decrypt exactly when the key has a length they take and the
tag is the true one. -/
theorem decryptSymmetric_long (rt : Runtime) (htag : tag.length = tagSize)
    (hiv : iv.length = ivSize) :
    (acceptsKey rt key → tag = gcm.tag key iv cipherText →
      decryptSymmetric (symmetric gcm rt) (cipherText ++ tag ++ iv) (.bytes key) =
        .ok (gcm.ctr key iv cipherText)) ∧
    (tag ≠ gcm.tag key iv cipherText →
      Throws (decryptSymmetric (symmetric gcm rt) (cipherText ++ tag ++ iv) (.bytes key))) := by
  have hcutIv : cut ivSize (cipherText ++ tag ++ iv).length = (cipherText ++ tag).length := by
    rw [cut_of_le (by simp; omega)]; simp [← hiv, ← Nat.add_assoc]
  have hcutTag : cut tagSize (cipherText ++ tag).length = cipherText.length := by
    rw [cut_of_le (by simp; omega)]; simp [← htag]
  have hne : iv ≠ [] := by rintro rfl; simp [ivSize] at hiv
  have hmatches : tag <+: gcm.tag key iv cipherText ↔ tag = gcm.tag key iv cipherText :=
    ⟨fun h => h.eq_of_length (by rw [htag, gcm.tag_length]; rfl), fun h => h ▸ List.prefix_rfl⟩
  rw [decryptSymmetric_append _ hcutIv]
  cases rt with
  | node =>
    constructor
    · intro hkey heq
      refine node_decrypt_accepts hcutTag ⟨hkey, hne, ?_, hmatches.mpr heq⟩
      rw [htag]
      decide
    · intro heq
      exact node_decrypt_throws hcutTag fun h => heq (hmatches.mp h.matching)
  | browser =>
    have hlen : ¬ (cipherText ++ tag).length < tagSize := by simp [htag]
    have hsub : (cipherText ++ tag).length - tagSize = cipherText.length := by simp [htag]
    simp only [symmetric, Browser.decrypt, Browser.subtleDecrypt, hlen, ite_false, hsub,
      List.take_left, List.drop_left]
    constructor
    · intro hkey heq
      simp only [acceptsKey] at hkey
      simp [Browser.importKey, hkey, heq]
    · intro heq
      simp only [heq, ite_false, Browser.importKey]
      split <;> exact throws_error _

/-- Lengths of the pieces Node gets out of an input that is too short for a whole tag, where the
piece it takes for the tag has a length it accepts: cipher text, tag and nonce. -/
def shortTagLengths : List (Nat × Nat × Nat) :=
  [(0, 4, 4), (0, 8, 2), (0, 4, 12), (0, 8, 12), (8, 4, 12)]

/-- The input is `cipherText | tag | iv` with a tag of four or eight bytes that begins the true
tag. -/
def ForgedShortTag (gcm : Gcm) (key payload : Bytes) : Prop :=
  ∃ cipherText tag iv, payload = cipherText ++ tag ++ iv ∧
    (cipherText.length, tag.length, iv.length) ∈ shortTagLengths ∧
    tag <+: gcm.tag key iv cipherText

theorem browser_short (gcm : Gcm) (key : Bytes) {payload : Bytes} (h : payload.length < 28) :
    Throws (decryptSymmetric (symmetric gcm .browser) payload (.bytes key)) := by
  have hcut : cut ivSize payload.length < tagSize := by
    unfold cut sliceBound ivSize tagSize; split <;> omega
  simp only [decryptSymmetric, slice_cut, symmetric, Browser.decrypt, Browser.subtleDecrypt,
    Browser.importKey, hexToBuf]
  rw [if_pos (by simp; omega : (payload.take (cut ivSize payload.length)).length < tagSize)]
  split <;> exact throws_error _

/-- Below 28 bytes the cuts leave a tag of an accepted length for five input lengths only. -/
theorem cut_short : ∀ len < 28, ∀ b a, a = cut ivSize len → b = cut tagSize a →
    (a - b = 4 ∨ a - b = 8 ∨ 12 ≤ a - b) → (b, a - b, len - a) ∈ shortTagLengths := by
  have key : ∀ len < 28, (cut ivSize len - cut tagSize (cut ivSize len) = 4 ∨
      cut ivSize len - cut tagSize (cut ivSize len) = 8 ∨
      12 ≤ cut ivSize len - cut tagSize (cut ivSize len)) →
      (cut tagSize (cut ivSize len), cut ivSize len - cut tagSize (cut ivSize len),
        len - cut ivSize len) ∈ shortTagLengths := by decide
  rintro len h _ _ rfl rfl
  exact key len h

/-- The pieces of a short input, by where the two cuts fall. -/
theorem split_short (gcm : Gcm) (key : Bytes) {payload : Bytes} (h : payload.length < 28) :
    ∃ cipherText tag iv, payload = cipherText ++ tag ++ iv ∧
      decryptSymmetric (symmetric gcm .node) payload (.bytes key) =
        Node.decrypt gcm iv key (cipherText ++ tag) ∧
      cut tagSize (cipherText ++ tag).length = cipherText.length ∧
      (tag.length = 4 ∨ tag.length = 8 ∨ 12 ≤ tag.length →
        (cipherText.length, tag.length, iv.length) ∈ shortTagLengths) := by
  have ha : cut ivSize payload.length ≤ payload.length := cut_le _ _
  have hb : cut tagSize (cut ivSize payload.length) ≤ cut ivSize payload.length := cut_le _ _
  have hpiece : (payload.take (cut ivSize payload.length)).take
        (cut tagSize (cut ivSize payload.length)) ++
      (payload.take (cut ivSize payload.length)).drop
        (cut tagSize (cut ivSize payload.length)) = payload.take (cut ivSize payload.length) :=
    List.take_append_drop _ _
  refine ⟨(payload.take (cut ivSize payload.length)).take (cut tagSize (cut ivSize payload.length)),
    (payload.take (cut ivSize payload.length)).drop (cut tagSize (cut ivSize payload.length)),
    payload.drop (cut ivSize payload.length), ?_, ?_, ?_, ?_⟩
  · rw [hpiece, List.take_append_drop]
  · rw [hpiece]
    simp only [decryptSymmetric, slice_cut, sliceFrom_cut, symmetric, hexToBuf]
  · rw [hpiece]
    simp [Nat.min_eq_left ha, Nat.min_eq_left hb]
  · simp only [List.length_take, List.length_drop, Nat.min_eq_left ha, Nat.min_eq_left hb]
    exact cut_short _ h _ _ rfl rfl

/-- The five forgeries are cut where they were put together. -/
theorem forged_cut {len₁ len₂ len₃ : Nat} (h : (len₁, len₂, len₃) ∈ shortTagLengths) :
    cut ivSize (len₁ + len₂ + len₃) = len₁ + len₂ ∧ cut tagSize (len₁ + len₂) = len₁ ∧
      len₃ ≠ 0 ∧ (len₂ = 4 ∨ len₂ = 8) := by
  simp only [shortTagLengths, List.mem_cons, Prod.mk.injEq, List.not_mem_nil, or_false] at h
  rcases h with ⟨rfl, rfl, rfl⟩ | ⟨rfl, rfl, rfl⟩ | ⟨rfl, rfl, rfl⟩ | ⟨rfl, rfl, rfl⟩ |
    ⟨rfl, rfl, rfl⟩ <;> decide

theorem node_short (gcm : Gcm) (hkey : key.length = 32) {payload : Bytes} (h : payload.length < 28) :
    Throws (decryptSymmetric (symmetric gcm .node) payload (.bytes key)) ↔
      ¬ ForgedShortTag gcm key payload := by
  constructor
  · rintro ⟨e, he⟩ ⟨cipherText, tag, iv, rfl, hlens, hmatches⟩
    obtain ⟨hcutIv, hcutTag, hiv, htag⟩ := forged_cut hlens
    rw [← List.length_append] at hcutTag
    rw [← List.length_append, ← List.length_append] at hcutIv
    have hne : iv ≠ [] := fun h => hiv (by rw [h]; rfl)
    have hok : decryptSymmetric (symmetric gcm .node) (cipherText ++ tag ++ iv) (.bytes key) =
        .ok (gcm.ctr key iv cipherText) := by
      rw [decryptSymmetric_append _ hcutIv]
      exact node_decrypt_accepts hcutTag ⟨hkey, hne, by omega, hmatches⟩
    rw [hok] at he
    cases he
  · intro hforged
    obtain ⟨cipherText, tag, iv, hsplit, heq, hcut, hlens⟩ := split_short gcm key h
    rw [heq]
    refine node_decrypt_throws hcut fun h => ?_
    have htag := h.tagLength
    exact hforged ⟨cipherText, tag, iv, hsplit, hlens (by omega), h.matching⟩

theorem ForgedShortTag.length_lt {payload : Bytes} (h : ForgedShortTag gcm key payload) :
    payload.length < 28 := by
  obtain ⟨cipherText, tag, iv, rfl, hlens, _⟩ := h
  simp only [shortTagLengths, List.mem_cons, Prod.mk.injEq, List.not_mem_nil, or_false] at hlens
  simp only [List.length_append]
  omega

end

/-! ## The two back ends compared -/

/-- The tag Node's decipher is handed. -/
def nodeTag (payload : Bytes) : Bytes :=
  let cipher := slice payload 0 ((payload.length : Int) - ivSize)
  sliceFrom cipher ((cipher.length : Int) - tagSize)

structure BackendsAgree (gcm : Gcm) (key payload : Bytes) : Prop where
  agree : (Throws (decryptSymmetric (symmetric gcm .node) payload (.bytes key)) ∧
      Throws (decryptSymmetric (symmetric gcm .browser) payload (.bytes key))) ∨
    ∃ clear, decryptSymmetric (symmetric gcm .node) payload (.bytes key) = .ok clear ∧
      decryptSymmetric (symmetric gcm .browser) payload (.bytes key) = .ok clear
  short : payload.length < 28 →
    Throws (decryptSymmetric (symmetric gcm .node) payload (.bytes key)) ∧
      Throws (decryptSymmetric (symmetric gcm .browser) payload (.bytes key))
  whole_tag : (nodeTag payload).length < 16 →
    Throws (decryptSymmetric (symmetric gcm .node) payload (.bytes key))

/-- From 28 bytes on an input is a cipher text, a whole tag and a nonce. -/
theorem split_long {payload : Bytes} (h : 28 ≤ payload.length) :
    ∃ cipherText tag iv, payload = cipherText ++ tag ++ iv ∧ tag.length = tagSize ∧
      iv.length = ivSize := by
  refine ⟨payload.take (payload.length - 28), (payload.drop (payload.length - 28)).take 16,
    payload.drop (payload.length - 12), ?_, ?_, ?_⟩
  · rw [show payload.length - 12 = payload.length - 28 + 16 by omega, ← List.drop_drop,
      List.append_assoc, List.take_append_drop, List.take_append_drop]
  · simp [tagSize]; omega
  · simp [ivSize]; omega

theorem nodeTag_length {payload : Bytes} (h : 28 ≤ payload.length) :
    (nodeTag payload).length = 16 := by
  have hcut : cut ivSize payload.length = payload.length - 12 := cut_of_le (by unfold ivSize; omega)
  have hlen : (payload.take (payload.length - 12)).length = payload.length - 12 := by simp
  simp only [nodeTag, slice_cut, sliceFrom_cut, hcut]
  rw [hlen, cut_of_le (by unfold tagSize; omega), List.length_drop, hlen]
  unfold tagSize
  omega

theorem backendsAgree_iff {gcm : Gcm} {key : Bytes} (hkey : key.length = 32) (payload : Bytes) :
    BackendsAgree gcm key payload ↔ ¬ ForgedShortTag gcm key payload := by
  by_cases hlen : payload.length < 28
  · have hbrowser := browser_short gcm key hlen
    have hnode := node_short gcm hkey hlen
    constructor
    · intro h
      exact hnode.mp (h.short hlen).1
    · intro h
      have hthrows := hnode.mpr h
      exact ⟨.inl ⟨hthrows, hbrowser⟩, fun _ => ⟨hthrows, hbrowser⟩, fun _ => hthrows⟩
  · refine ⟨fun _ h => hlen h.length_lt, fun _ => ⟨?_, fun h => absurd h hlen, fun h => ?_⟩⟩
    · obtain ⟨cipherText, tag, iv, rfl, htag, hiv⟩ := split_long (by omega : 28 ≤ payload.length)
      have hnode := @decryptSymmetric_long gcm key iv cipherText tag .node htag hiv
      have hbrowser := @decryptSymmetric_long gcm key iv cipherText tag .browser htag hiv
      by_cases heq : tag = gcm.tag key iv cipherText
      · exact .inr ⟨_, hnode.1 hkey heq, hbrowser.1 (.inr (.inr hkey)) heq⟩
      · exact .inl ⟨hnode.2 heq, hbrowser.2 heq⟩
    · have := nodeTag_length (by omega : 28 ≤ payload.length)
      omega

theorem backendsAgree_iff_zeroKey :
    (zeros 32).length = 32 ∧ (BackendsAgree Gcm.transparent (zeros 32) (gcmZeroTag ++ zeros 12) ↔
      ¬ ForgedShortTag Gcm.transparent (zeros 32) (gcmZeroTag ++ zeros 12)) :=
  ⟨zeros_length 32, backendsAgree_iff (zeros_length 32) _⟩

/-- The first four bytes of a true tag and its nonce: Node accepts, the browser does not. -/
theorem node_accepts_four_byte_tag :
    decryptSymmetric (symmetric Gcm.transparent .node) (gcmZeroTag.take 4 ++ zeros 12)
        (.bytes (zeros 32)) = .ok [] ∧
      Throws (decryptSymmetric (symmetric Gcm.transparent .browser)
        (gcmZeroTag.take 4 ++ zeros 12) (.bytes (zeros 32))) ∧
      ¬ BackendsAgree Gcm.transparent (zeros 32) (gcmZeroTag.take 4 ++ zeros 12) := by
  have hnode : decryptSymmetric (symmetric Gcm.transparent .node) (gcmZeroTag.take 4 ++ zeros 12)
      (.bytes (zeros 32)) = .ok [] := rfl
  refine ⟨hnode, browser_short _ _ (by decide), fun h => ?_⟩
  obtain ⟨e, he⟩ := (h.short (by decide)).1
  rw [hnode] at he
  cases he

end SymmetricCrypto
end JsWaku
