import JsWaku.Js.SetData
import JsWaku.Relay.Registry

/-!
# JsWaku.Relay.LiveObservers

The observers of a relay with their sets as an iteration sees them.

* `LiveObservers` — `this.observers`, whose sets keep a hole for each callback that was deleted.
* `Refines`    — the observers that these stand for between two messages; every edit keeps it.
* `edits_keep` — what an edit does under one topic is enough to know of a list of edits.
-/

namespace JsWaku
namespace Relay

open Js Trace

abbrev LiveObservers (κ : Type) := OrdMap String (SetData κ)

section

variable {κ : Type}

def LiveObservers.at (observers : LiveObservers κ) (contentTopic : String) :
    Property (SetData κ) :=
  match observers.get contentTopic with
  | some callbacks => .own callbacks
  | none => if contentTopic ∈ objectPrototype then .inherited else .missing

def LiveObservers.data (observers : LiveObservers κ) (key : String) : SetData κ :=
  (observers.get key).getD .empty

theorem data_set (live : LiveObservers κ) (t key : String) (s : SetData κ) :
    LiveObservers.data (live.set t s) key = if t = key then s else live.data key := by
  unfold LiveObservers.data
  by_cases hkey : t = key
  · subst hkey
    simp
  · rw [OrdMap.get_set_of_ne hkey, if_neg hkey]

theorem data_of_own {live : LiveObservers κ} {t : String} {s : SetData κ}
    (h : live.at t = .own s) : live.data t = s := by
  unfold LiveObservers.at at h
  unfold LiveObservers.data
  split at h
  · rename_i hget
    cases h
    rw [hget]
    rfl
  · split at h <;> cases h

theorem data_of_missing {live : LiveObservers κ} {t : String} (h : live.at t = .missing) :
    live.data t = .empty := by
  unfold LiveObservers.at at h
  unfold LiveObservers.data
  split at h
  · cases h
  · rename_i hget
    rw [hget]
    rfl

theorem own_or_empty (live : LiveObservers κ) (t : String) :
    (∃ s, live.at t = .own s) ∨ live.data t = .empty := by
  unfold LiveObservers.at LiveObservers.data
  cases live.get t with
  | some s => exact .inl ⟨s, rfl⟩
  | none => exact .inr rfl

/-- `observers` are these as they are between two messages. -/
def Refines (live : LiveObservers κ) (observers : Observers κ) : Prop :=
  ∀ key, observers.get key = (live.get key).map SetData.toSet

theorem Refines.set {live : LiveObservers κ} {observers : Observers κ} (h : Refines live observers)
    (t : String) (s : SetData κ) :
    Refines (live.set t s) (observers.set t s.toSet) := by
  intro key
  by_cases hkey : t = key
  · subst hkey
    simp
  · rw [OrdMap.get_set_of_ne hkey, OrdMap.get_set_of_ne hkey]
    exact h key

theorem registeredAt_refines {live : LiveObservers κ} {observers : Observers κ}
    (h : Refines live observers) (key : String) :
    registeredAt observers key = (live.data key).toSet.toList.map (Prod.mk key) := by
  unfold registeredAt LiveObservers.data
  rw [h key]
  cases live.get key <;> rfl

variable [DecidableEq κ]

def LiveObservers.observe (callback : κ) (observers : LiveObservers κ) (contentTopic : String) :
    Except Thrown (LiveObservers κ) :=
  match observers.at contentTopic with
  | .missing => .ok (observers.set contentTopic (SetData.empty.add callback))
  | .own callbacks => .ok (observers.set contentTopic (callbacks.add callback))
  | .inherited => .error .typeError

def LiveObservers.unobserve (callback : κ) (observers : LiveObservers κ) (contentTopic : String) :
    Except Thrown (LiveObservers κ) :=
  match observers.at contentTopic with
  | .missing => .ok observers
  | .own callbacks => .ok (observers.set contentTopic (callbacks.delete callback))
  | .inherited => .error .typeError

def LiveObservers.editAt (e : Edit κ) (observers : LiveObservers κ) (contentTopic : String) :
    Except Thrown (LiveObservers κ) :=
  if e.adds then observers.observe e.callback contentTopic
  else observers.unobserve e.callback contentTopic

/-- A call of `addObserver` or of `deleteObserver`. -/
def LiveObservers.edit (observers : LiveObservers κ) (e : Edit κ) : LiveObservers κ :=
  (forEach (LiveObservers.editAt e) observers e.topics).1

/-! ## The two levels -/

variable {live live' : LiveObservers κ} {observers : Observers κ} {e : Edit κ} {key t : String}
  {c : κ} {p : Nat}

theorem Refines.editAt (h : Refines live observers) (e : Edit κ) (t : String) :
    (∃ err, e.at observers t = .error err ∧ live.editAt e t = .error err) ∨
      ∃ observers' live', e.at observers t = .ok observers' ∧ live.editAt e t = .ok live' ∧
        Refines live' observers' := by
  have hget := h t
  unfold Edit.at LiveObservers.editAt observe unobserve LiveObservers.observe
    LiveObservers.unobserve Observers.at LiveObservers.at
  cases hlive : live.get t with
  | some s =>
    rw [hlive, Option.map_some] at hget
    rw [hget]
    cases e.adds with
    | true =>
      have hset := h.set t (s.add e.callback)
      rw [SetData.toSet_add] at hset
      exact .inr ⟨_, _, rfl, rfl, hset⟩
    | false =>
      have hset := h.set t (s.delete e.callback)
      rw [SetData.toSet_delete] at hset
      exact .inr ⟨_, _, rfl, rfl, hset⟩
  | none =>
    rw [hlive, Option.map_none] at hget
    rw [hget]
    by_cases ht : t ∈ objectPrototype
    · simp only [if_pos ht]
      cases e.adds with
      | true => exact .inl ⟨_, rfl, rfl⟩
      | false => exact .inl ⟨_, rfl, rfl⟩
    · simp only [if_neg ht]
      cases e.adds with
      | true =>
        have hset := h.set t (SetData.empty.add e.callback)
        rw [SetData.toSet_add] at hset
        exact .inr ⟨_, _, rfl, rfl, hset⟩
      | false => exact .inr ⟨_, _, rfl, rfl, h⟩

theorem Refines.forEach (h : Refines live observers) (e : Edit κ) (topics : List String) :
    Refines (forEach (LiveObservers.editAt e) live topics).1 (forEach e.at observers topics).1 := by
  induction topics generalizing live observers with
  | nil => exact h
  | cons t topics ih =>
    rw [Js.forEach, Js.forEach]
    obtain ⟨err, herr, herr'⟩ | ⟨observers', live', hok, hok', h'⟩ := h.editAt e t
    · rw [herr, herr']
      exact h
    · rw [hok, hok']
      exact ih h'

theorem Refines.edit (h : Refines live observers) (e : Edit κ) :
    Refines (live.edit e) (e.apply observers).1 := by
  rw [e.apply_eq]
  exact h.forEach e e.topics

theorem refines_foldl {history : List (Edit κ)} (h : Refines live (afterEdits history))
    (edits : List (Edit κ)) :
    Refines (edits.foldl LiveObservers.edit live) (afterEdits (history ++ edits)) := by
  induction edits generalizing live history with
  | nil => rwa [List.append_nil]
  | cons e edits ih =>
    have hnext := h.edit e
    rw [← afterEdits_append] at hnext
    have hrest := ih hnext
    rwa [List.append_assoc] at hrest

theorem editAt_cases (h : live.editAt e t = .ok live') :
    (e.adds = true ∧ live' = live.set t ((live.data t).add e.callback)) ∨
      e.adds = false ∧ (live' = live.set t ((live.data t).delete e.callback) ∨ live' = live) := by
  unfold LiveObservers.editAt LiveObservers.observe LiveObservers.unobserve at h
  split at h
  · rename_i hadds
    split at h
    · rename_i hat
      cases h
      rw [data_of_missing hat]
      exact .inl ⟨hadds, rfl⟩
    · rename_i hat
      cases h
      rw [data_of_own hat]
      exact .inl ⟨hadds, rfl⟩
    · cases h
  · rename_i hadds
    split at h
    · cases h
      exact .inr ⟨eq_false_of_ne_true hadds, .inr rfl⟩
    · rename_i hat
      cases h
      rw [data_of_own hat]
      exact .inr ⟨eq_false_of_ne_true hadds, .inl rfl⟩
    · cases h

/-- Under each key: one element more, or one less, or nothing. -/
theorem data_editAt (h : live.editAt e t = .ok live') (key : String) :
    (e.adds = true ∧ t = key ∧ live'.data key = (live.data key).add e.callback) ∨
      (e.adds = false ∧ t = key ∧ live'.data key = (live.data key).delete e.callback) ∨
        live'.data key = live.data key := by
  obtain ⟨hadds, rfl⟩ | ⟨hdeletes, rfl | rfl⟩ := editAt_cases h
  · rw [data_set]
    by_cases hkey : t = key
    · subst hkey
      exact .inl ⟨hadds, rfl, if_pos rfl⟩
    · exact .inr (.inr (if_neg hkey))
  · rw [data_set]
    by_cases hkey : t = key
    · subst hkey
      exact .inr (.inl ⟨hdeletes, rfl, if_pos rfl⟩)
    · exact .inr (.inr (if_neg hkey))
  · exact .inr (.inr rfl)

theorem later_editAt (h : live.editAt e t = .ok live') (key : String) :
    SetData.Later (live.data key) (live'.data key) := by
  obtain ⟨_, _, heq⟩ | ⟨_, _, heq⟩ | heq := data_editAt h key
  · rw [heq]
    exact SetData.later_add _ _
  · rw [heq]
    exact SetData.later_delete _ _
  · rw [heq]
    exact .refl _

theorem at_editAt (h : live.editAt e t = .ok live') (hat : (live.data key).At p c)
    (hkeeps : e.adds = false → t = key → c ≠ e.callback) : (live'.data key).At p c := by
  obtain ⟨_, _, heq⟩ | ⟨hdeletes, hkey, heq⟩ | heq := data_editAt h key
  · rw [heq]
    exact hat.add e.callback
  · rw [heq]
    exact hat.delete (hkeeps hdeletes hkey)
  · rwa [heq]

theorem length_editAt (h : live.editAt e t = .ok live') (hdeletes : e.adds = false) (key : String) :
    (live'.data key).entries.length = (live.data key).entries.length := by
  obtain ⟨hadds, _⟩ | ⟨_, _, heq⟩ | heq := data_editAt h key
  · rw [hadds] at hdeletes
    cases hdeletes
  · rw [heq]
    exact List.length_map _
  · rw [heq]

/-- What one topic of an edit keeps, the whole edit keeps. -/
theorem edit_keeps {I : LiveObservers κ → Prop}
    (hstep : ∀ live live' t, t ∈ e.topics → I live → live.editAt e t = .ok live' → I live')
    (h : I live) : I (live.edit e) := by
  have hall : ∀ (topics : List String) (live : LiveObservers κ), (∀ t ∈ topics, t ∈ e.topics) →
      I live → I (forEach (LiveObservers.editAt e) live topics).1 := by
    intro topics
    induction topics with
    | nil => exact fun _ _ h => h
    | cons t topics ih =>
      intro live htopics h
      rw [Js.forEach]
      cases hedit : live.editAt e t with
      | error _ => exact h
      | ok live' =>
        exact ih live' (fun t' ht' => htopics t' (List.mem_cons_of_mem _ ht'))
          (hstep live live' t (htopics t List.mem_cons_self) h hedit)
  exact hall e.topics live (fun _ ht => ht) h

theorem edits_keep {I : LiveObservers κ → Prop} {edits : List (Edit κ)}
    (hstep : ∀ e ∈ edits, ∀ live live' t, t ∈ e.topics → I live → live.editAt e t = .ok live' →
      I live')
    (h : I live) : I (edits.foldl LiveObservers.edit live) := by
  induction edits generalizing live with
  | nil => exact h
  | cons e edits ih =>
    exact ih (fun e' he' => hstep e' (List.mem_cons_of_mem _ he'))
      (edit_keeps (hstep e List.mem_cons_self) h)

end

end Relay
end JsWaku
