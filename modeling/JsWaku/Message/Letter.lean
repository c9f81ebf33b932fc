import JsWaku.Message.Text

/-!
# JsWaku.Message.Letter

A message on its way from who made it to whoever comes by it.

* `Letter`  — a message that `fromBytes` made, on either runtime.
* `Outcome` — a letter opens for the holder of some keys, or it is not for him.
* `Letter.opens`, `Letter.Closed.decode` — what decoding gives, on either runtime.
-/

namespace JsWaku

open Js SymmetricCrypto Version1

structure Letter (libs : Libs) where
  rt : Runtime
  draws : Draws
  payload : Bytes
  contentTopic : String
  opts : Option Options
  message : WakuMessage
  made : fromBytes libs rt draws payload contentTopic opts = .ok message
  short : payload.length < 2 ^ 24
  /-- A browser takes shorter keys as well, which Node does not. -/
  portable : ∀ key, given (opts.getD Options.none).symKey = some key → (hexToBuf key).length = 32

section

variable {libs : Libs}

def Letter.options (l : Letter libs) : Options := l.opts.getD Options.none

/-- The payload that is sent. -/
def Letter.cipher (l : Letter libs) : Bytes := l.message.payload.getD []

/-- None of the keys has anything to do with the letter. -/
structure Letter.Closed (l : Letter libs) (keys : List Bytes) : Prop where
  encrypts : l.options.encrypts
  strangers : ∀ key ∈ keys, Stranger libs l.cipher key

inductive Outcome (keys : List Bytes) (l : Letter libs) : Option WakuMessage → Prop where
  | opens {r : WakuMessage} : HoldsKey libs l.options l.cipher keys →
      Restored libs l.payload l.contentTopic l.options l.message r → Outcome keys l (some r)
  | closed : l.Closed keys → Outcome keys l none

end

section

variable {libs : Libs} {rt rt' : Runtime} {draws : Draws} {payload cipher : Bytes} {opts : Options}
  {sig : Option Signature} {version : UInt32} {keys : List Bytes}

/-- With a key of 32 bytes, the runtimes seal alike. -/
theorem sealed_portable (h : Sealed libs rt draws payload opts cipher sig version)
    (hportable : ∀ key, given opts.symKey = some key → (hexToBuf key).length = 32) :
    Sealed libs rt' draws payload opts cipher sig version := by
  cases h with
  | clear hpk hsym => exact .clear hpk hsym
  | asymmetric hpk hsym henc hcipher => exact .asymmetric hpk hsym henc hcipher
  | symmetric hpk hsym henc _ =>
    refine .symmetric hpk hsym henc ?_
    cases rt' with
    | node => exact hportable _ hsym
    | browser => exact .inr (.inr (hportable _ hsym))

/-- No keys are as good as an empty list of them. -/
theorem decodeProto_getD (p : Proto.WakuMessage) (keys : Option (List Bytes)) :
    decodeProto libs rt p keys = decodeProto libs rt p (some (keys.getD [])) := by
  cases keys with
  | some keys => rfl
  | none =>
    unfold decodeProto
    cases p.payload with
    | none => rfl
    | some payload => split <;> rfl

theorem decodeProto_strangers {p : Proto.WakuMessage} (hpayload : p.payload = some cipher)
    (hversion : p.version = some 1) (hlen : 28 ≤ cipher.length)
    (h : ∀ key ∈ keys, Stranger libs cipher key) :
    decodeProto libs rt p (some keys) = .ok none := by
  have hnil : keys.filterMap (tryDecrypt libs rt cipher) = [] :=
    List.filterMap_eq_nil_iff.mpr fun key hkey => tryDecrypt_stranger hlen (h key hkey)
  have hnone : firstDecrypted libs rt cipher keys = none := by rw [firstDecrypted, hnil]; rfl
  simp [decodeProto, hpayload, hversion, hnone]

theorem sealed_length (hlibs : libs.Lawful)
    (h : Sealed libs rt draws payload opts cipher sig version) (hopts : opts.encrypts) :
    28 ≤ cipher.length := by
  cases h with
  | clear hpk hsym => simp [Options.encrypts, hpk, hsym] at hopts
  | asymmetric _ _ _ hcipher =>
    rw [hlibs.ecies.cipher_length hcipher]
    unfold eciesOverhead
    omega
  | symmetric _ _ _ _ => exact seal_length libs.gcm _ _ draws.iv_length

/-- Whoever holds the key reads what the author wrote, and learns who signed it. -/
theorem Letter.opens (hlibs : libs.Lawful) (rt : Runtime) (l : Letter libs)
    (h : HoldsKey libs l.options l.cipher keys) :
    ∃ r, Restored libs l.payload l.contentTopic l.options l.message r ∧
      decodeProto libs rt l.message.proto (some keys) = .ok (some r) := by
  obtain ⟨timestamp, cipher, sig, version, _, hs, hmessage⟩ := fromBytes_cases l.made
  have hs' := @sealed_portable _ _ rt _ _ _ _ _ _ hs l.portable
  have hcipher : l.cipher = cipher := by rw [Letter.cipher, hmessage]; rfl
  rw [hcipher] at h
  rcases sealed_cases hs' with ⟨hclear, rfl, rfl, rfl⟩ | ⟨hopts, rfl, enc, henc⟩
  · refine ⟨⟨l.message.proto, none, none⟩, ?_, ?_⟩
    · rw [hmessage]
      exact ⟨rfl, rfl, rfl, rfl, fun _ hopts => absurd hopts hclear, fun _ => rfl⟩
    · rw [hmessage]
      exact decodeProto_sealed_clear keys
  · obtain ⟨r, hr, hsig, hall⟩ :=
      decodeProto_sealed hlibs l.contentTopic timestamp.toSeconds l.short henc hs'
    refine ⟨r, ?_, ?_⟩
    · rw [hmessage]
      exact restored_of_proto hr hsig hopts henc
    · rw [hmessage]
      exact hall keys h

/-- Whoever does not gets nothing. -/
theorem Letter.Closed.decode (hlibs : libs.Lawful) (rt : Runtime) {l : Letter libs}
    (h : l.Closed keys) : decodeProto libs rt l.message.proto (some keys) = .ok none := by
  obtain ⟨timestamp, cipher, sig, version, _, hs, hmessage⟩ := fromBytes_cases l.made
  have hs' := @sealed_portable _ _ rt _ _ _ _ _ _ hs l.portable
  have hcipher : l.cipher = cipher := by rw [Letter.cipher, hmessage]; rfl
  rcases sealed_cases hs' with ⟨hclear, _⟩ | ⟨hopts, rfl, _⟩
  · exact absurd h.encrypts hclear
  · have hstrangers := h.strangers
    rw [hcipher] at hstrangers
    rw [hmessage]
    exact decodeProto_strangers rfl rfl (sealed_length hlibs hs' hopts) hstrangers

theorem Letter.outcome (hlibs : libs.Lawful) (rt : Runtime) (l : Letter libs)
    (h : HoldsKey libs l.options l.cipher keys ∨ l.Closed keys) :
    ∃ o, Outcome keys l o ∧ decodeProto libs rt l.message.proto (some keys) = .ok o := by
  rcases h with hopens | hclosed
  · obtain ⟨r, hr, hdecode⟩ := l.opens hlibs rt hopens
    exact ⟨some r, .opens hopens hr, hdecode⟩
  · exact ⟨none, .closed hclosed, hclosed.decode hlibs rt⟩

end

namespace Hello

theorem payload_short : payload.length < 2 ^ 24 := by decide

theorem key_portable : ∀ key, given options.symKey = some key → (hexToBuf key).length = 32 := by
  rintro key ⟨⟩
  exact List.length_replicate

def letter : Letter Libs.transparent where
  rt := .node
  draws := draws
  payload := payload
  contentTopic := "/hello"
  opts := some options
  message := ⟨proto, none, none⟩
  made := fromBytes_payload
  short := payload_short
  portable := key_portable

end Hello

end JsWaku
