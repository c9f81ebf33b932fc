import JsWaku.Message.Text
import JsWaku.Relay.Registry

/-!
# JsWaku.Relay.Delivery

From one node to another: a message that is made, sent, received and handed to callbacks.

* `emit`      — what a node does not subscribe to it does not receive.
* `Wants`     — a callback was added for the topic of a message, and not deleted since.
* `Delivered` — the callbacks that are wanted get the message, once for each listener that was
  attached, and no others do.
* `send_delivers` — so it is at a node that holds the key and whose callbacks do not throw.
-/

namespace JsWaku
namespace Relay

open Js Trace SymmetricCrypto WakuRelay

section

variable {κ : Type} {observers : Observers κ} {t contentTopic : String} {c : κ}

theorem mem_registered_iff : (t, c) ∈ registered observers (some contentTopic) ↔
    (t = "" ∨ t = contentTopic) ∧ Found observers (t, c) := by
  have hat : ∀ key, (t, c) ∈ registeredAt observers key ↔ t = key ∧ Found observers (t, c) := by
    intro key
    constructor
    · intro h
      obtain rfl : t = key := fst_of_mem_registeredAt h
      exact ⟨rfl, found_iff.mpr (mem_registeredAt_iff.mp h)⟩
    · rintro ⟨rfl, h⟩
      exact mem_registeredAt_iff.mpr (found_iff.mp h)
  rw [registered, List.mem_append, hat, or_and_right]
  by_cases hempty : contentTopic = ""
  · simp [hempty]
  · simp only [hempty, ite_false, hat]

variable [DecidableEq κ]

/-- The registrations that were put in and not taken out since. -/
theorem found_afterEdits {history : List (Edit κ)}
    (hordinary : ∀ e ∈ history, ∀ t ∈ e.topics, t ∉ objectPrototype) (registration : String × κ) :
    Found (afterEdits history) registration ↔
      Standing Edit.puts Edit.takes history registration := by
  refine standing_after (fun a => ?_) (fun before e since hsplit a => ?_) registration
  · rw [found_iff]
    rintro ⟨_, hget, _⟩
    cases hget
  · have hedit := (apply_ordinary before (hordinary e (by simp [hsplit]))).2 a.1 a.2
    rw [afterEdits_append] at hedit
    exact hedit

end

section

variable {β κ ρ : Type}

/-- What is received, goes to the listeners of its topic. -/
def emit (pubsub : Pubsub β) (rc : Receiver κ ρ) (relay : WakuRelay β κ ρ) (topic : Topic)
    (data : Bytes) : List (String × κ) :=
  if pubsub.subscribed topic relay.base = true then relay.receive rc topic data else []

theorem receive_nil {rc : Receiver κ ρ} {relay : WakuRelay β κ ρ} {data : Bytes}
    (h : relay.decode rc data = .ok none) (topic : Topic) : relay.receive rc topic data = [] := by
  simp [receive, onMessage, h]

def Wants (history : List (Call κ ρ)) (contentTopic : String) (registration : String × κ) : Prop :=
  (registration.1 = "" ∨ registration.1 = contentTopic) ∧
    Standing Edit.puts Edit.takes (history.filterMap Call.edit) registration

variable [DecidableEq κ]

/-- What was sent arrives under its topic. -/
structure Delivered (pubsub : Pubsub β) (rc : Receiver κ ρ) (history : List (Call κ ρ))
    (relay : WakuRelay β κ ρ) (sent : Topic × Bytes) (payload : Bytes) (contentTopic : String) :
    Prop where
  message : ∃ r, relay.decode rc sent.2 = .ok (some r) ∧ r.payload = some payload ∧
    r.contentTopic = some contentTopic
  wanted : ∀ registration, Wants history contentTopic registration →
    (emit pubsub rc relay sent.1 sent.2).count registration = attachments relay.pubSubTopic history
  others : ∀ registration, ¬ Wants history contentTopic registration →
    registration ∉ emit pubsub rc relay sent.1 sent.2

variable [DecidableEq ρ] {rc : Receiver κ ρ} {relay : WakuRelay β κ ρ} {draws : Draws}
  {payload : Bytes} {contentTopic : String} {opts : Option JsWaku.Options} {m : WakuMessage}

/-- A message that decodes, and callbacks that do not throw on it. -/
theorem count_receive_wants {pubsub : Pubsub β} {pubSubTopic : Option Topic}
    {history : List (Call κ ρ)} {data : Bytes} {r : WakuMessage} (registration : String × κ)
    (hrelay : relay = afterCalls pubsub pubSubTopic history)
    (hordinary : ∀ e ∈ history.filterMap Call.edit, ∀ t ∈ e.topics, t ∉ objectPrototype)
    (hthrows : ∀ r callback, rc.throws r callback = false)
    (hdecode : relay.decode rc data = .ok (some r)) (hcontent : r.contentTopic = some contentTopic) :
    (Wants history contentTopic registration →
      (relay.receive rc relay.pubSubTopic data).count registration =
        attachments relay.pubSubTopic history) ∧
    (¬ Wants history contentTopic registration →
      (relay.receive rc relay.pubSubTopic data).count registration = 0) := by
  have hlistening := listening_afterCalls pubsub pubSubTopic history
  rw [← hrelay] at hlistening
  have hnotify : notify (rc.throws r) relay.observers r.contentTopic =
      registered relay.observers (some contentTopic) := by
    rw [hcontent]
    exact notify_eq_iff.mpr fun registration _ => hthrows r registration.2
  have hwants : registration ∈ registered relay.observers (some contentTopic) ↔
      Wants history contentTopic registration := by
    obtain ⟨t, c⟩ := registration
    rw [mem_registered_iff, hrelay, observers_afterCalls, found_afterEdits hordinary]
    rfl
  rw [count_receive hdecode, hnotify, hlistening.listeners]
  constructor
  · intro h
    rw [List.count_eq_one_of_mem registered_nodup (hwants.mpr h), Nat.mul_one]
    rfl
  · intro h
    rw [List.count_eq_zero_of_not_mem (mt hwants.mp h), Nat.mul_zero]

theorem send_delivers {β' κ' ρ' : Type} (pubsub : Pubsub β) (pubSubTopic : Option Topic)
    (history : List (Call κ ρ)) (sender : WakuRelay β' κ' ρ') (hlibs : rc.libs.Lawful)
    (hlen : payload.length < 2 ^ 24)
    (hm : fromBytes rc.libs rc.rt draws payload contentTopic opts = .ok m)
    (hcodec : rc.codec.Undoes m.proto)
    (hrelay : relay = afterCalls pubsub pubSubTopic history)
    (htopic : sender.pubSubTopic = relay.pubSubTopic)
    (hreceives : pubsub.subscribed relay.pubSubTopic relay.base = true)
    (hkeys : HoldsKey rc.libs (opts.getD JsWaku.Options.none) (m.payload.getD [])
      (relay.keysTried rc.bytes))
    (hordinary : ∀ e ∈ history.filterMap Call.edit, ∀ t ∈ e.topics, t ∉ objectPrototype)
    (hthrows : ∀ r callback, rc.throws r callback = false) :
    Delivered pubsub rc history relay (sender.send rc.codec m) payload contentTopic := by
  obtain ⟨r, hpayload, hcontent, hall⟩ := payload_decode_encode hlibs hlen hm hcodec
  have hdecode : relay.decode rc (sender.send rc.codec m).2 = .ok (some r) := hall _ hkeys
  have hcount := fun registration =>
    count_receive_wants registration hrelay hordinary hthrows hdecode hcontent
  have hsame : emit pubsub rc relay (sender.send rc.codec m).1 (sender.send rc.codec m).2 =
      relay.receive rc relay.pubSubTopic (sender.send rc.codec m).2 := by
    rw [send, htopic, emit, if_pos hreceives]
  rw [← hsame] at hcount
  exact ⟨⟨r, hdecode, hpayload, hcontent⟩, fun registration => (hcount registration).1,
    fun registration h => List.count_eq_zero.mp ((hcount registration).2 h)⟩

end

namespace SealedWord

def receiver : Receiver Nat Nat := { Restarted.receiver with bytes := fun _ => Hello.key }

def history : List (Call Nat Nat) := [.addDecryptionKey 0, .addObserver 1 ["/hello"], .start]

def sender : WakuRelay (Bool × OrdSet Topic) Nat Nat := new .standard none

theorem holdsKey : HoldsKey Libs.transparent Hello.options Hello.cipher [Hello.key] := by
  refine .symmetric rfl rfl List.mem_cons_self fun k hk hne => ?_
  exact absurd (List.mem_singleton.mp hk) hne

theorem ordinary : ∀ e ∈ history.filterMap Call.edit, ∀ t ∈ e.topics, t ∉ objectPrototype := by
  decide

end SealedWord

theorem send_delivers_sealed : Delivered .standard SealedWord.receiver SealedWord.history
    (Restarted.relay SealedWord.history)
    (SealedWord.sender.send Hello.codec ⟨Hello.proto, none, none⟩) [104, 105] "/hello" :=
  send_delivers .standard none SealedWord.history SealedWord.sender Libs.transparent_lawful
    (by decide) Hello.fromBytes_payload Hello.codec_undoes rfl rfl (by decide) SealedWord.holdsKey
    SealedWord.ordinary fun _ _ => rfl

end Relay
end JsWaku
