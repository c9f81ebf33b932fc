import JsWaku.Relay.Lifecycle

/-!
# JsWaku.Relay.DecryptionKeys

`addDecryptionKey` and `deleteDecryptionKey` of `lib/waku_relay/index.ts`. The keys are a `Set` of
arrays, which tells arrays apart by identity and not by their bytes.

* `mem_decryptionKeys` — an array is in the set if the last call about it added it.
* `keys_tried_iff`     — the keys tried are the ones added and not deleted since, each once, as long
  as an array is the last one its bytes came in.
-/

namespace JsWaku
namespace Relay

open Js Trace

structure KeyCall (ρ : Type) where
  adds : Bool
  privateKey : ρ
  deriving DecidableEq

section

variable {κ ρ : Type}

def Call.keyCall : Call κ ρ → Option (KeyCall ρ)
  | .addDecryptionKey privateKey => some ⟨true, privateKey⟩
  | .deleteDecryptionKey privateKey => some ⟨false, privateKey⟩
  | .start => none
  | .stop => none
  | .subscribe _ => none
  | .unsubscribe _ => none
  | .addObserver _ _ => none
  | .deleteObserver _ _ => none

/-- The last call about one of the arrays. -/
def lastAbout (p : ρ → Bool) (history : List (Call κ ρ)) : Option (KeyCall ρ) :=
  ((history.filterMap Call.keyCall).filter fun c => p c.privateKey).getLast?

theorem lastAbout_append (p : ρ → Bool) (history : List (Call κ ρ)) (c : Call κ ρ) :
    lastAbout p (history ++ [c]) =
      ((c.keyCall.filter fun c => p c.privateKey).or (lastAbout p history)) := by
  unfold lastAbout
  rw [List.filterMap_append]
  cases hc : c.keyCall with
  | none => simp [hc]
  | some keyCall =>
    by_cases hp : p keyCall.privateKey = true <;> simp [hc, hp, Option.filter]

theorem lastAbout_some {p : ρ → Bool} {history : List (Call κ ρ)} {c : KeyCall ρ}
    (h : lastAbout p history = some c) : p c.privateKey = true :=
  (List.mem_filter.mp (List.mem_of_getLast? h)).2

/-- The last call about some arrays is the last one about its own. -/
theorem lastAbout_of_wider [DecidableEq ρ] {p : ρ → Bool} {history : List (Call κ ρ)}
    {c : KeyCall ρ} (h : lastAbout p history = some c) (hp : ∀ a, a = c.privateKey → p a = true) :
    lastAbout (· = c.privateKey) history = some c := by
  have hfilter : (history.filterMap Call.keyCall).filter (fun c' => c'.privateKey = c.privateKey) =
      ((history.filterMap Call.keyCall).filter fun c' => p c'.privateKey).filter
        fun c' => c'.privateKey = c.privateKey := by
    rw [List.filter_filter]
    refine List.filter_congr fun c' _ => ?_
    by_cases he : c'.privateKey = c.privateKey
    · simp [he, hp _ rfl]
    · simp [he]
  unfold lastAbout at h ⊢
  obtain ⟨front, hfront⟩ := List.getLast?_eq_some_iff.mp h
  rw [hfilter, hfront, List.filter_append]
  simp

end

namespace WakuRelay

section

variable {β κ ρ : Type} {history : List (Call κ ρ)} {relay : WakuRelay β κ ρ}

variable [DecidableEq κ] [DecidableEq ρ] {pubsub : Pubsub β}

theorem next_decryptionKeys (pubsub : Pubsub β) (relay : WakuRelay β κ ρ) (c : Call κ ρ) :
    (relay.next pubsub c).decryptionKeys = match c.keyCall with
      | some ⟨true, privateKey⟩ => relay.decryptionKeys.add privateKey
      | some ⟨false, privateKey⟩ => relay.decryptionKeys.delete privateKey
      | none => relay.decryptionKeys := by
  cases c with
  | start => exact (sameEntries_subscribe _ _ _).decryptionKeys
  | stop => rfl
  | subscribe topic => exact (sameEntries_subscribe _ _ _).decryptionKeys
  | unsubscribe topic => exact (sameEntries_unsubscribe _ _ _).decryptionKeys
  | addObserver callback contentTopics => rfl
  | deleteObserver callback contentTopics => rfl
  | addDecryptionKey privateKey => rfl
  | deleteDecryptionKey privateKey => rfl

/-- An array is in the set exactly if the last call about it added it. -/
def Tracks (history : List (Call κ ρ)) (relay : WakuRelay β κ ρ) : Prop :=
  ∀ a, a ∈ relay.decryptionKeys ↔ lastAbout (· = a) history = some ⟨true, a⟩

theorem Tracks.next {c : Call κ ρ} (h : Tracks history relay) :
    Tracks (history ++ [c]) (relay.next pubsub c) := by
  intro a
  rw [next_decryptionKeys, lastAbout_append]
  cases c.keyCall with
  | none => simpa using h a
  | some keyCall =>
    obtain ⟨adds, privateKey⟩ := keyCall
    by_cases ha : privateKey = a
    · subst ha
      cases adds <;> simp [Option.filter]
    · have hne : ¬ a = privateKey := fun he => ha he.symm
      cases adds <;> simpa [Option.filter, ha, hne] using h a

theorem mem_decryptionKeys (pubsub : Pubsub β) (pubSubTopic : Option Topic)
    (history : List (Call κ ρ)) : Tracks history (afterCalls pubsub pubSubTopic history) := by
  refine after_invariant ?_ (fun _ _ _ h => h.next) history
  intro a
  simp [new, lastAbout]

/-- The keys tried are, by their bytes and each once, those whose last call was an add. -/
structure TriesAdded (bytes : ρ → Bytes) (history : List (Call κ ρ)) (relay : WakuRelay β κ ρ) :
    Prop where
  once : (relay.keysTried bytes).Nodup
  added : ∀ k, k ∈ relay.keysTried bytes ↔
    ∃ c, lastAbout (bytes · = k) history = some c ∧ c.adds = true

/-- No array comes after one with the same bytes that is still added. -/
def Unrivalled (bytes : ρ → Bytes) (history : List (Call κ ρ)) : Prop :=
  ∀ a, lastAbout (· = a) history = some ⟨true, a⟩ →
    lastAbout (bytes · = bytes a) history = some ⟨true, a⟩

theorem keys_tried_iff (pubsub : Pubsub β) (pubSubTopic : Option Topic) (bytes : ρ → Bytes)
    (history : List (Call κ ρ)) :
    TriesAdded bytes history (afterCalls pubsub pubSubTopic history) ↔ Unrivalled bytes history := by
  have hmem := mem_decryptionKeys pubsub pubSubTopic history
  constructor
  · intro h a ha
    have htried : bytes a ∈ (afterCalls pubsub pubSubTopic history).keysTried bytes :=
      List.mem_map_of_mem ((hmem a).mpr ha)
    obtain ⟨⟨adds, b⟩, hlast, rfl⟩ := (h.added (bytes a)).mp htried
    have hbytes : bytes b = bytes a := by simpa using lastAbout_some hlast
    have hb : b ∈ (afterCalls pubsub pubSubTopic history).decryptionKeys :=
      (hmem b).mpr (lastAbout_of_wider hlast fun c hc => decide_eq_true (hc ▸ hbytes))
    -- Two members of the set with the same bytes would be tried twice.
    have hinj := List.inj_on_of_nodup_map h.once
    rw [hinj hb ((hmem a).mpr ha) hbytes] at hlast
    exact hlast
  · intro h
    constructor
    · refine List.Nodup.map_on ?_ (OrdSet.nodup _)
      intro a ha b hb hbytes
      have hlast := h a ((hmem a).mp ha)
      rw [hbytes, h b ((hmem b).mp hb)] at hlast
      cases hlast
      rfl
    · intro k
      constructor
      · intro hk
        obtain ⟨a, ha, rfl⟩ := List.mem_map.mp hk
        exact ⟨_, h a ((hmem a).mp ha), rfl⟩
      · rintro ⟨⟨adds, a⟩, hlast, rfl⟩
        have hbytes : bytes a = k := by simpa using lastAbout_some hlast
        have ha : lastAbout (· = a) history = some ⟨true, a⟩ :=
          lastAbout_of_wider hlast fun c hc => decide_eq_true (hc ▸ hbytes)
        exact List.mem_map.mpr ⟨a, (hmem a).mpr ha, hbytes⟩

end

end WakuRelay

namespace Copied

/-- Two arrays with the same bytes. -/
def bytes (_ : Nat) : Bytes := zeros 32

def history : List (Call Nat Nat) := [.addDecryptionKey 0, .deleteDecryptionKey 1]

end Copied

theorem copy_keeps_key :
    (Restarted.relay Copied.history).keysTried Copied.bytes = [zeros 32] ∧
      ¬ WakuRelay.TriesAdded Copied.bytes Copied.history (Restarted.relay Copied.history) := by
  refine ⟨by rfl, fun h => ?_⟩
  obtain ⟨c, hlast, hadds⟩ := (h.added (zeros 32)).mp List.mem_cons_self
  have hdeleted : lastAbout (Copied.bytes · = zeros 32) Copied.history = some ⟨false, 1⟩ := by rfl
  rw [hdeleted] at hlast
  cases hlast
  cases hadds

end Relay
end JsWaku
