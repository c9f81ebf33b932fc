import Mathlib.Data.List.Basic

/-!
# JsWaku.Js.Value

JavaScript values the rest of the development needs but Lean has no type for: what a `throw`
carries, and the three states of an optional object property.

* `Thrown`  — a thrown value. A promise rejects with one, so `async` code is `Except Thrown`.
* `OptField α` — a property of an options object: not there, there with value `undefined`, or set.
  `Object.assign` copies the second kind over a default, a destructuring `?.` does not.
-/

namespace JsWaku
namespace Js

inductive Thrown where
  /-- `throw 'text'` -/
  | text (s : String)
  /-- `throw new Error(message)` -/
  | error (message : String)
  /-- A `TypeError`, such as reading a property of `undefined`. -/
  | typeError
  /-- A `RangeError`, such as a buffer read past the end. -/
  | rangeError
  /-- An exception raised inside a package. -/
  | raisedBy (package : String)
  deriving DecidableEq, Repr

/-- A computation that throws, whatever the value. -/
def Throws {α : Type} (x : Except Thrown α) : Prop := ∃ e, x = .error e

theorem throws_error {α : Type} (e : Thrown) : Throws (.error e : Except Thrown α) := ⟨e, rfl⟩

@[simp] theorem not_throws_ok {α : Type} (a : α) : ¬ Throws (.ok a : Except Thrown α) := by
  rintro ⟨e, h⟩; cases h

theorem throws_or_ok {α : Type} (x : Except Thrown α) : Throws x ∨ ∃ a, x = .ok a := by
  cases x with
  | error e => exact .inl ⟨e, rfl⟩
  | ok a => exact .inr ⟨a, rfl⟩

@[simp] theorem ok_bind {α β : Type} (a : α) (f : α → Except Thrown β) :
    (Except.ok a >>= f) = f a := rfl

@[simp] theorem error_bind {α β : Type} (e : Thrown) (f : α → Except Thrown β) :
    (Except.error e >>= f) = .error e := rfl

/-- A successful sequence is a successful first part and a successful rest. -/
theorem bind_eq_ok {α β : Type} {x : Except Thrown α} {f : α → Except Thrown β} {b : β}
    (h : x >>= f = .ok b) : ∃ a, x = .ok a ∧ f a = .ok b := by
  cases x with
  | error e => cases h
  | ok a => exact ⟨a, rfl, h⟩

/-- `items.forEach(body)` over a state: what was done before a throw stays done. -/
def forEach {σ α : Type} (body : σ → α → Except Thrown σ) : σ → List α → σ × Except Thrown Unit
  | s, [] => (s, .ok ())
  | s, a :: items =>
    match body s a with
    | .ok s => forEach body s items
    | .error e => (s, .error e)

/-! ## Promises -/

/-- `Promise.all` over promises in the order in which they settle: the first rejection, or every
value. -/
def promiseAll {α : Type} (settled : List (Except Thrown α)) : Except Thrown (List α) :=
  settled.mapM id

theorem promiseAll_cons {α : Type} (r : Except Thrown α) (rs : List (Except Thrown α)) :
    promiseAll (r :: rs) = do
      let x ← r
      let xs ← promiseAll rs
      return x :: xs := by
  rw [promiseAll, List.mapM_cons]; rfl

theorem promiseAll_eq_ok {α : Type} {settled : List (Except Thrown α)} {xs : List α} :
    promiseAll settled = .ok xs ↔ settled = xs.map .ok := by
  induction settled generalizing xs with
  | nil => cases xs <;> simp [promiseAll, pure, Except.pure]
  | cons r rs ih =>
    rw [promiseAll_cons]
    cases r with
    | error e => cases xs <;> simp
    | ok x =>
      rw [ok_bind]
      cases hrs : promiseAll rs with
      | error e =>
        have hne : ∀ ys : List α, rs ≠ ys.map .ok := by
          intro ys h
          rw [ih.mpr h] at hrs
          cases hrs
        cases xs with
        | nil => simp
        | cons y ys => simp [hne ys]
      | ok ys =>
        rw [ih.mp hrs]
        cases xs <;> simp [pure, Except.pure, List.map_inj_right]

/-- One rejection is enough. -/
theorem throws_promiseAll {α : Type} {settled : List (Except Thrown α)} :
    Throws (promiseAll settled) ↔ ∃ r ∈ settled, Throws r := by
  induction settled with
  | nil => simp [promiseAll, pure, Except.pure]
  | cons r rs ih =>
    rw [promiseAll_cons]
    cases r with
    | error e => simp [throws_error]
    | ok x =>
      have hrest : Throws (promiseAll rs >>= fun xs => pure (x :: xs)) ↔ Throws (promiseAll rs) := by
        cases promiseAll rs <;> simp [throws_error, pure, Except.pure]
      rw [ok_bind, hrest, ih]
      simp

/-- A number; the two zeros are one. -/
inductive Number where
  | nan
  | finite (q : Rat)
  | infinite (positive : Bool)
  deriving DecidableEq

namespace Number

def zero : Number := .finite 0

/-- `value || dflt`, where neither zero nor NaN is a value. -/
def orElse (value : Option Number) (dflt : Number) : Number :=
  match value with
  | none => dflt
  | some n => if n = .nan ∨ n = zero then dflt else n

end Number

/-- `value || dflt`, where the empty string is no value. -/
def stringOr (value : Option String) (dflt : String) : String :=
  match value with
  | some s => if s ≠ "" then s else dflt
  | none => dflt

inductive OptField (α : Type) where
  | absent
  | undefined
  | value (a : α)
  deriving DecidableEq, Repr

/-- Reading the property. -/
def OptField.get {α : Type} : OptField α → Option α
  | .absent => none
  | .undefined => none
  | .value a => some a

/-- The property of `Object.assign({p: dflt}, {p: field})`. -/
def OptField.assign {α : Type} (dflt : α) : OptField α → Option α
  | .absent => some dflt
  | .undefined => none
  | .value a => some a

end Js
end JsWaku
