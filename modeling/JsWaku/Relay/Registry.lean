import JsWaku.Relay.Lifecycle

/-!
# JsWaku.Relay.Registry

The observers of a relay as a registry of callbacks under content topics.

* `Found` — a callback is found under a topic when a message on it arrives.
* `registry_faithful_iff` — a history of calls throws nothing, and leaves what was added and not
  deleted since, exactly when it names no property that every object inherits.
-/

namespace JsWaku
namespace Relay

open Js Trace

/-- A call of `addObserver` or of `deleteObserver`. -/
structure Edit (κ : Type) where
  adds : Bool
  callback : κ
  contentTopics : List String
  deriving DecidableEq

/-- `''` stands for all topics. -/
def Edit.topics {κ : Type} (e : Edit κ) : List String :=
  if e.contentTopics.length = 0 then [""] else e.contentTopics

def Edit.puts {κ : Type} (e : Edit κ) (registration : String × κ) : Prop :=
  e.adds = true ∧ registration.1 ∈ e.topics ∧ registration.2 = e.callback

def Edit.takes {κ : Type} (e : Edit κ) (registration : String × κ) : Prop :=
  e.adds = false ∧ registration.1 ∈ e.topics ∧ registration.2 = e.callback

/-- Found when a message on the topic arrives and no callback throws. -/
def Found {κ : Type} (observers : Observers κ) (registration : String × κ) : Prop :=
  registration ∈ notify (fun _ => false) observers (some registration.1)

section

variable {κ : Type} {observers observers' : Observers κ} {t : String} {callback : κ}
  {registration : String × κ}

theorem mem_registeredAt_iff : (t, callback) ∈ registeredAt observers t ↔
    ∃ callbacks, observers.get t = some callbacks ∧ callback ∈ callbacks := by
  unfold registeredAt
  cases observers.get t with
  | none => simp
  | some callbacks => simp [OrdSet.mem_def]

theorem found_iff : Found observers (t, callback) ↔
    ∃ callbacks, observers.get t = some callbacks ∧ callback ∈ callbacks := by
  have hall : notify (fun _ => false) observers (some t) = registered observers (some t) :=
    notify_eq_iff.mpr fun _ _ => rfl
  rw [Found, hall, ← mem_registeredAt_iff, registered]
  by_cases ht : t = ""
  · simp [ht]
  · have hother : (t, callback) ∉ registeredAt observers "" := fun h =>
      ht (fst_of_mem_registeredAt h)
    simp [ht, hother]

theorem found_set (callbacks : OrdSet κ) (t' : String) (callback' : κ) :
    Found (observers.set t callbacks) (t', callback') ↔
      t' = t ∧ callback' ∈ callbacks ∨ t' ≠ t ∧ Found observers (t', callback') := by
  rw [found_iff, found_iff]
  by_cases ht : t' = t
  · subst ht
    simp
  · have hne : t ≠ t' := fun h => ht h.symm
    rw [OrdMap.get_set_of_ne hne]
    simp [ht]

/-- No topic is the name of an inherited property. -/
def Plain (observers : Observers κ) : Prop := ∀ t ∈ objectPrototype, observers.get t = none

theorem plain_empty : Plain (OrdMap.empty : Observers κ) := fun _ _ => rfl

theorem Plain.set {callbacks : OrdSet κ} (h : Plain observers) (ht : t ∉ objectPrototype) :
    Plain (observers.set t callbacks) := by
  intro t' ht'
  have hne : t ≠ t' := fun he => ht (he ▸ ht')
  rw [OrdMap.get_set_of_ne hne]
  exact h t' ht'

variable [DecidableEq κ]

theorem observe_ordinary (callback : κ) (observers : Observers κ) (ht : t ∉ objectPrototype) :
    ∃ callbacks, observe callback observers t = .ok (observers.set t callbacks) ∧
      ∀ c, c ∈ callbacks ↔ c = callback ∨ Found observers (t, c) := by
  unfold observe Observers.at
  cases hget : observers.get t with
  | some callbacks =>
    refine ⟨callbacks.add callback, rfl, fun c => ?_⟩
    simp [found_iff, hget]
  | none =>
    refine ⟨OrdSet.empty.add callback, by simp [ht], fun c => ?_⟩
    simp [found_iff, hget]

theorem unobserve_ordinary (callback : κ) (observers : Observers κ) (ht : t ∉ objectPrototype) :
    ∃ observers', unobserve callback observers t = .ok observers' ∧
      (Plain observers → Plain observers') ∧
      ∀ t' c, Found observers' (t', c) ↔ Found observers (t', c) ∧ ¬ (t' = t ∧ c = callback) := by
  unfold unobserve Observers.at
  cases hget : observers.get t with
  | some callbacks =>
    refine ⟨observers.set t (callbacks.delete callback), rfl, fun h => h.set ht, fun t' c => ?_⟩
    rw [found_set]
    by_cases htopic : t' = t
    · subst htopic
      simp [found_iff, hget, and_comm]
    · simp [htopic]
  | none =>
    refine ⟨observers, by simp [ht], fun h => h, fun t' c => ?_⟩
    constructor
    · intro h
      refine ⟨h, ?_⟩
      rintro ⟨rfl, _⟩
      rw [found_iff, hget] at h
      obtain ⟨_, hsome, _⟩ := h
      cases hsome
    · exact fun h => h.1

/-- What a call does for one of its topics. -/
def Edit.at (e : Edit κ) (observers : Observers κ) (contentTopic : String) :
    Except Thrown (Observers κ) :=
  if e.adds then observe e.callback observers contentTopic
  else unobserve e.callback observers contentTopic

def Edit.apply (e : Edit κ) (observers : Observers κ) : Observers κ × Except Thrown Unit :=
  if e.adds then addObserver e.callback e.contentTopics observers
  else deleteObserver e.callback e.contentTopics observers

theorem Edit.apply_eq (e : Edit κ) (observers : Observers κ) :
    e.apply observers = forEach e.at observers e.topics := by
  obtain ⟨adds, callback, contentTopics⟩ := e
  unfold apply topics addObserver deleteObserver
  cases adds <;> by_cases h : contentTopics.length = 0 <;> simp only [h] <;> rfl

/-- The registry after `e` has been through `topics`. -/
def Edited (e : Edit κ) (topics : List String) (observers observers' : Observers κ) : Prop :=
  ∀ t c, Found observers' (t, c) ↔ (e.adds = true ∧ t ∈ topics ∧ c = e.callback) ∨
    Found observers (t, c) ∧ ¬ (e.adds = false ∧ t ∈ topics ∧ c = e.callback)

theorem Edit.at_ordinary (e : Edit κ) (observers : Observers κ) (ht : t ∉ objectPrototype) :
    ∃ observers', e.at observers t = .ok observers' ∧ (Plain observers → Plain observers') ∧
      Edited e [t] observers observers' := by
  unfold Edit.at Edited
  cases hadds : e.adds with
  | true =>
    obtain ⟨callbacks, hok, hmem⟩ := observe_ordinary e.callback observers ht
    refine ⟨_, hok, fun h => h.set ht, fun t' c => ?_⟩
    rw [found_set, hmem]
    by_cases htopic : t' = t
    · subst htopic
      simp
    · simp [htopic]
  | false =>
    obtain ⟨observers', hok, hplain, hmem⟩ := unobserve_ordinary e.callback observers ht
    refine ⟨observers', hok, hplain, fun t' c => ?_⟩
    simpa using hmem t' c

theorem Edit.at_inherited (e : Edit κ) (h : Plain observers) (ht : t ∈ objectPrototype) :
    e.at observers t = .error .typeError := by
  have hat : observers.at t = .inherited := by
    rw [Observers.at, h t ht]
    exact if_pos ht
  unfold Edit.at observe unobserve
  rw [hat]
  cases e.adds <;> rfl

/-- A call goes through its topics one by one. -/
theorem forEach_ordinary (e : Edit κ) (topics : List String) (observers : Observers κ)
    (hordinary : ∀ t ∈ topics, t ∉ objectPrototype) :
    ∃ observers', forEach e.at observers topics = (observers', .ok ()) ∧
      Edited e topics observers observers' := by
  induction topics generalizing observers with
  | nil =>
    refine ⟨observers, rfl, fun t c => ?_⟩
    simp
  | cons t topics ih =>
    obtain ⟨ht, hrest⟩ := List.forall_mem_cons.mp hordinary
    obtain ⟨observers₁, hok₁, _, hedit₁⟩ := e.at_ordinary observers ht
    obtain ⟨observers₂, hok₂, hedit₂⟩ := ih observers₁ hrest
    refine ⟨observers₂, by rw [forEach, hok₁]; exact hok₂, fun t' c => ?_⟩
    rw [hedit₂, hedit₁, List.mem_singleton, List.mem_cons]
    cases e.adds <;> simp <;> tauto

theorem forEach_inherited (e : Edit κ) (topics : List String) (observers : Observers κ)
    (hplain : Plain observers) (h : ∃ t ∈ topics, t ∈ objectPrototype) :
    (forEach e.at observers topics).2 ≠ .ok () := by
  induction topics generalizing observers with
  | nil =>
    obtain ⟨t, hmem, _⟩ := h
    cases hmem
  | cons t topics ih =>
    by_cases ht : t ∈ objectPrototype
    · rw [forEach, e.at_inherited hplain ht]
      intro hok
      cases hok
    · obtain ⟨observers', hok, hplain', _⟩ := e.at_ordinary observers ht
      obtain ⟨t', hmem, ht'⟩ := h
      rw [forEach, hok]
      refine ih observers' (hplain' hplain) ⟨t', ?_, ht'⟩
      rcases List.mem_cons.mp hmem with rfl | hmem
      · exact absurd ht' ht
      · exact hmem

/-! ## A history of calls -/

/-- The calls of a history that are about observers, on a registry that is empty at first. -/
def afterEdits (history : List (Edit κ)) : Observers κ :=
  after (fun observers e => (e.apply observers).1) OrdMap.empty history

theorem afterEdits_append (history : List (Edit κ)) (e : Edit κ) :
    afterEdits (history ++ [e]) = (e.apply (afterEdits history)).1 := by
  simp [afterEdits, after]

theorem plain_forEach (e : Edit κ) (topics : List String) (observers : Observers κ)
    (hplain : Plain observers) : Plain (forEach e.at observers topics).1 := by
  induction topics generalizing observers with
  | nil => exact hplain
  | cons t topics ih =>
    by_cases ht : t ∈ objectPrototype
    · rw [forEach, e.at_inherited hplain ht]
      exact hplain
    · obtain ⟨observers', hok, hplain', _⟩ := e.at_ordinary observers ht
      rw [forEach, hok]
      exact ih observers' (hplain' hplain)

theorem plain_afterEdits (history : List (Edit κ)) : Plain (afterEdits history) := by
  refine after_invariant (I := fun _ observers => Plain observers) plain_empty ?_ history
  intro _ observers e h
  rw [e.apply_eq]
  exact plain_forEach e e.topics observers h

theorem apply_ordinary {e : Edit κ} (history : List (Edit κ))
    (hordinary : ∀ t ∈ e.topics, t ∉ objectPrototype) :
    (e.apply (afterEdits history)).2 = .ok () ∧
      Edited e e.topics (afterEdits history) (afterEdits (history ++ [e])) := by
  obtain ⟨observers', hok, hedit⟩ := forEach_ordinary e e.topics (afterEdits history) hordinary
  rw [afterEdits_append, e.apply_eq, hok]
  exact ⟨rfl, hedit⟩

/-- The observers behave as a map from topics to sets of callbacks. -/
structure FaithfulMap (history : List (Edit κ)) : Prop where
  quiet : ∀ before e since, history = before ++ e :: since →
    (e.apply (afterEdits before)).2 = .ok ()
  found : ∀ registration, Found (afterEdits history) registration ↔
    Standing Edit.puts Edit.takes history registration
  frame : ∀ before e since, history = before ++ e :: since → ∀ t, t ∉ e.topics → ∀ c,
    Found (afterEdits (before ++ [e])) (t, c) ↔ Found (afterEdits before) (t, c)

theorem registry_faithful_iff (history : List (Edit κ)) :
    FaithfulMap history ↔ ∀ e ∈ history, ∀ t ∈ e.topics, t ∉ objectPrototype := by
  constructor
  · intro h e he t ht hinherited
    obtain ⟨before, since, hsplit⟩ := List.append_of_mem he
    have hok := h.quiet before e since hsplit
    rw [e.apply_eq] at hok
    exact forEach_inherited e e.topics _ (plain_afterEdits before) ⟨t, ht, hinherited⟩ hok
  · intro h
    have hcall : ∀ before e since, history = before ++ e :: since →
        (e.apply (afterEdits before)).2 = .ok () ∧
          Edited e e.topics (afterEdits before) (afterEdits (before ++ [e])) := by
      intro before e since hsplit
      exact apply_ordinary before (h e (by simp [hsplit]))
    constructor
    · intro before e since hsplit
      exact (hcall before e since hsplit).1
    · intro registration
      refine standing_after (fun a => ?_) (fun before e since hsplit a => ?_) registration
      · obtain ⟨t, c⟩ := a
        rw [found_iff]
        rintro ⟨_, hget, _⟩
        cases hget
      · have hedit := (hcall before e since hsplit).2 a.1 a.2
        rw [afterEdits_append] at hedit
        exact hedit
    · intro before e since hsplit t ht c
      rw [(hcall before e since hsplit).2 t c]
      simp [ht]

end

/-- `toString` is there before anybody adds it. -/
theorem registry_toString_throws :
    (Edit.apply ⟨true, 0, ["toString"]⟩ (afterEdits ([] : List (Edit Nat)))).2 =
        .error .typeError ∧
      ¬ FaithfulMap [(⟨true, 0, ["toString"]⟩ : Edit Nat)] := by
  have hthrows : (Edit.apply ⟨true, 0, ["toString"]⟩ (afterEdits ([] : List (Edit Nat)))).2 =
      .error .typeError := rfl
  refine ⟨hthrows, fun h => ?_⟩
  have hok := h.quiet [] _ [] rfl
  rw [hthrows] at hok
  cases hok

section

variable {β κ ρ : Type}

def Call.edit : Call κ ρ → Option (Edit κ)
  | .addObserver callback contentTopics => some ⟨true, callback, contentTopics⟩
  | .deleteObserver callback contentTopics => some ⟨false, callback, contentTopics⟩
  | .start => none
  | .stop => none
  | .subscribe _ => none
  | .unsubscribe _ => none
  | .addDecryptionKey _ => none
  | .deleteDecryptionKey _ => none

namespace WakuRelay

variable [DecidableEq κ] [DecidableEq ρ]

theorem next_observers (pubsub : Pubsub β) (relay : WakuRelay β κ ρ) (c : Call κ ρ) :
    (relay.next pubsub c).observers = match c.edit with
      | some e => (e.apply relay.observers).1
      | none => relay.observers := by
  cases c with
  | start => exact (sameEntries_subscribe _ _ _).observers
  | stop => rfl
  | subscribe topic => exact (sameEntries_subscribe _ _ _).observers
  | unsubscribe topic => exact (sameEntries_unsubscribe _ _ _).observers
  | addObserver callback contentTopics => rfl
  | deleteObserver callback contentTopics => rfl
  | addDecryptionKey privateKey => rfl
  | deleteDecryptionKey privateKey => rfl

/-- Only calls about observers matter to them. -/
theorem observers_afterCalls (pubsub : Pubsub β) (pubSubTopic : Option Topic)
    (history : List (Call κ ρ)) : (afterCalls pubsub pubSubTopic history).observers =
      afterEdits (history.filterMap Call.edit) := by
  refine after_invariant (I := fun history (relay : WakuRelay β κ ρ) =>
    relay.observers = afterEdits (history.filterMap Call.edit)) rfl ?_ history
  intro history relay c h
  rw [next_observers, List.filterMap_append, h]
  cases hc : c.edit with
  | none => simp [hc]
  | some e => simp [hc, afterEdits_append]

end WakuRelay

end

end Relay
end JsWaku
