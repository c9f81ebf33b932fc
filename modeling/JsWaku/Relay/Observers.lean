import JsWaku.Js.OrdMap
import JsWaku.Js.OrdSet
import JsWaku.Js.Value
import Mathlib.Data.Prod.Basic

/-!
# JsWaku.Relay.Observers

The observers of `WakuRelay` (`lib/waku_relay/index.ts`): adding and deleting them, and calling them
with a message. A callback may throw, which ends the loop it is called in.

* `registered` — the registrations that want a message, in the order in which they are called.
* `notify`     — the registrations whose callback is called.
* `notify_eq_iff` — these are all of them unless a callback before the last one throws.
-/

namespace JsWaku
namespace Relay

open Js

/-- The names a plain object inherits. Their values are truthy, and none is a `Set`. -/
def objectPrototype : List String :=
  ["constructor", "__defineGetter__", "__defineSetter__", "hasOwnProperty", "__lookupGetter__",
   "__lookupSetter__", "isPrototypeOf", "propertyIsEnumerable", "toString", "valueOf", "__proto__",
   "toLocaleString"]

/-- What reading a property of a plain object gives. -/
inductive Property (ν : Type) where
  | missing
  | own (value : ν)
  | inherited

/-- The own properties of `this.observers`. -/
abbrev Observers (κ : Type) := OrdMap String (OrdSet κ)

section

variable {κ : Type}

def Observers.at (observers : Observers κ) (contentTopic : String) : Property (OrdSet κ) :=
  match observers.get contentTopic with
  | some callbacks => .own callbacks
  | none => if contentTopic ∈ objectPrototype then .inherited else .missing

section

variable [DecidableEq κ]

def observe (callback : κ) (observers : Observers κ) (contentTopic : String) :
    Except Thrown (Observers κ) :=
  match observers.at contentTopic with
  | .missing => .ok (observers.set contentTopic (OrdSet.empty.add callback))
  | .own callbacks => .ok (observers.set contentTopic (callbacks.add callback))
  | .inherited => .error .typeError

def unobserve (callback : κ) (observers : Observers κ) (contentTopic : String) :
    Except Thrown (Observers κ) :=
  match observers.at contentTopic with
  | .missing => .ok observers
  | .own callbacks => .ok (observers.set contentTopic (callbacks.delete callback))
  | .inherited => .error .typeError

def addObserver (callback : κ) (contentTopics : List String) (observers : Observers κ) :
    Observers κ × Except Thrown Unit :=
  if contentTopics.length = 0 then forEach (observe callback) observers [""]
  else forEach (observe callback) observers contentTopics

def deleteObserver (callback : κ) (contentTopics : List String) (observers : Observers κ) :
    Observers κ × Except Thrown Unit :=
  if contentTopics.length = 0 then forEach (unobserve callback) observers [""]
  else forEach (unobserve callback) observers contentTopics

end

/-! ## Calling -/

/-- The callbacks called, and whether the last of them threw. -/
def callEach (throws : κ → Bool) : List κ → List κ × Bool
  | [] => ([], false)
  | callback :: callbacks =>
    if throws callback then ([callback], true)
    else
      let (called, threw) := callEach throws callbacks
      (callback :: called, threw)

/-- A registration is a key of `observers` and a callback under it. -/
def callAt (throws : κ → Bool) (observers : Observers κ) (key : String) :
    List (String × κ) × Bool :=
  match observers.at key with
  | .missing => ([], false)
  | .own callbacks =>
    let (called, threw) := callEach throws callbacks.toList
    (called.map (Prod.mk key), threw)
  | .inherited => ([], true)

/-- A throw goes to the `catch` after the decoding. -/
def notify (throws : κ → Bool) (observers : Observers κ) (contentTopic : Option String) :
    List (String × κ) :=
  let (called, threw) := callAt throws observers ""
  if threw then called
  else
    match contentTopic with
    | none => called
    | some contentTopic =>
      if contentTopic = "" then called else called ++ (callAt throws observers contentTopic).1

def registeredAt (observers : Observers κ) (key : String) : List (String × κ) :=
  match observers.get key with
  | some callbacks => callbacks.toList.map (Prod.mk key)
  | none => []

def registered (observers : Observers κ) (contentTopic : Option String) : List (String × κ) :=
  registeredAt observers "" ++
    match contentTopic with
    | none => []
    | some contentTopic => if contentTopic = "" then [] else registeredAt observers contentTopic

variable {throws : κ → Bool} {observers : Observers κ} {contentTopic : Option String}

theorem callEach_append (l l' : List κ) : callEach throws (l ++ l') =
    if (callEach throws l).2 then callEach throws l
    else ((callEach throws l).1 ++ (callEach throws l').1, (callEach throws l').2) := by
  induction l with
  | nil => simp [callEach]
  | cons c l ih =>
    rw [List.cons_append, callEach, callEach]
    split
    · rfl
    · rw [ih]
      simp only
      split
      · rfl
      · rfl

theorem callEach_map {κ' : Type} (g : κ' → κ) (l : List κ') : callEach throws (l.map g) =
    ((callEach (throws ∘ g) l).1.map g, (callEach (throws ∘ g) l).2) := by
  induction l with
  | nil => rfl
  | cons c l ih =>
    rw [List.map_cons, callEach, callEach, ih]
    simp only [Function.comp]
    split <;> rfl

theorem callEach_prefix (l : List κ) : (callEach throws l).1 <+: l := by
  induction l with
  | nil => exact List.prefix_rfl
  | cons c l ih =>
    rw [callEach]
    split
    · exact ⟨l, rfl⟩
    · obtain ⟨rest, hrest⟩ := ih
      exact ⟨rest, by simp [hrest]⟩

/-- All are called exactly when none but the last throws. -/
theorem callEach_eq_iff (l : List κ) :
    (callEach throws l).1 = l ↔ ∀ c ∈ l.dropLast, throws c = false := by
  induction l with
  | nil => simp [callEach]
  | cons c l ih =>
    cases l with
    | nil => by_cases hc : throws c = true <;> simp [callEach, hc]
    | cons c' l =>
      rw [List.dropLast_cons_cons, List.forall_mem_cons, ← ih, callEach]
      split
      · rename_i hc
        simp [hc]
      · rename_i hc
        simp [hc]

/-- Reading an inherited name calls nobody. -/
theorem callAt_fst (key : String) : (callAt throws observers key).1 =
    (callEach (throws ∘ Prod.snd) (registeredAt observers key)).1 := by
  unfold callAt registeredAt Observers.at
  cases observers.get key with
  | some callbacks => simp only [callEach_map]; rfl
  | none => by_cases h : key ∈ objectPrototype <;> simp [h, callEach]

theorem callAt_empty : callAt throws observers "" =
    callEach (throws ∘ Prod.snd) (registeredAt observers "") := by
  unfold callAt registeredAt Observers.at
  cases observers.get "" with
  | some callbacks => simp only [callEach_map]; rfl
  | none => rfl

theorem notify_eq : notify throws observers contentTopic =
    (callEach (throws ∘ Prod.snd) (registered observers contentTopic)).1 := by
  unfold notify registered
  rw [callAt_empty, callEach_append]
  obtain ⟨called, threw⟩ := callEach (throws ∘ Prod.snd) (registeredAt observers "")
  cases threw with
  | true => rfl
  | false =>
    cases contentTopic with
    | none => simp [callEach]
    | some contentTopic =>
      by_cases hempty : contentTopic = ""
      · simp [hempty, callEach]
      · simp [hempty, callAt_fst]

theorem notify_isPrefix : notify throws observers contentTopic <+: registered observers contentTopic := by
  rw [notify_eq]
  exact callEach_prefix _

theorem notify_eq_iff : notify throws observers contentTopic = registered observers contentTopic ↔
    ∀ registration ∈ (registered observers contentTopic).dropLast, throws registration.2 = false := by
  rw [notify_eq]
  exact callEach_eq_iff _

theorem registeredAt_nodup (key : String) : (registeredAt observers key).Nodup := by
  unfold registeredAt
  split
  · rename_i callbacks _
    exact callbacks.nodup.map (Prod.mk_right_injective key)
  · exact List.nodup_nil

theorem fst_of_mem_registeredAt {key : String} {registration : String × κ}
    (h : registration ∈ registeredAt observers key) : registration.1 = key := by
  unfold registeredAt at h
  split at h
  · obtain ⟨_, _, rfl⟩ := List.mem_map.mp h
    rfl
  · cases h

theorem registered_nodup : (registered observers contentTopic).Nodup := by
  unfold registered
  split
  · simpa using registeredAt_nodup ""
  · split
    · simpa using registeredAt_nodup ""
    · rename_i hne
      refine (registeredAt_nodup "").append (registeredAt_nodup _) ?_
      intro registration h h'
      exact hne ((fst_of_mem_registeredAt h').symm.trans (fst_of_mem_registeredAt h))

theorem registered_split (observers : Observers κ) (contentTopic : Option String) :
    ∃ rest, registered observers contentTopic = registeredAt observers "" ++ rest ∧
      ∀ t, contentTopic = some t → t ≠ "" → rest = registeredAt observers t := by
  refine ⟨_, rfl, ?_⟩
  rintro t rfl hne
  exact if_neg hne

end

end Relay
end JsWaku
