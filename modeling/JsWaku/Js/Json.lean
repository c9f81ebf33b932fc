import JsWaku.Js.Value

/-!
# JsWaku.Js.Json

JSON values as a JavaScript program sees them, and reading properties of them.

* `JsString` — a string is a sequence of UTF-16 code units, which is what an index counts.
* `Json.ownProperties` — the properties a parsed value has of its own.
* `Realm β` — the built-in values behind those: prototypes and what hangs off them.
* `Realm.Leads` — a path of properties leads from one value to another.
-/

namespace JsWaku
namespace Js

abbrev JsString := List UInt16

def utf16 (c : Char) : JsString :=
  if c.toNat < 0x10000 then [c.toNat.toUInt16]
  else
    let rest := c.toNat - 0x10000
    [(0xD800 + rest / 0x400).toUInt16, (0xDC00 + rest % 0x400).toUInt16]

def units (s : String) : JsString := s.toList.flatMap utf16

/-- The entries of an object stand in the order of `Object.keys`. -/
inductive Json where
  | null
  | bool (b : Bool)
  | number (n : Float)
  | string (s : JsString)
  | array (elements : List Json)
  | object (entries : List (JsString × Json))

/-- The properties `0`, `1`, … and `length` of a string or an array. -/
def indexed (elements : List Json) : List (JsString × Json) :=
  elements.zipIdx.map (fun e => (units (toString e.2), e.1)) ++
    [(units "length", .number (Float.ofNat elements.length))]

def Json.ownProperties : Json → List (JsString × Json)
  | .null | .bool _ | .number _ => []
  | .string s => indexed (s.map fun u => .string [u])
  | .array elements => indexed elements
  | .object entries => entries

def Json.own (v : Json) (prop : JsString) : Option Json := v.ownProperties.lookup prop

/-- The value at the end of a path of own properties. -/
def Json.ownAt : Json → List JsString → Option Json
  | v, [] => some v
  | v, prop :: path => (v.own prop).bind (·.ownAt path)

/-- What reading a property can come to. -/
inductive Value (β : Type) where
  | json (v : Json)
  | builtin (b : β)

/-- What is thrown: text, or anything the language or a package throws. -/
inductive Failure where
  | text (s : JsString)
  | thrown (e : Thrown)
  deriving DecidableEq, Repr

/-- How `Array.isArray`, `typeof` and `Object.values` see a built-in value. -/
inductive Shape (β : Type) where
  | array (elements : List (Value β))
  | object (values : List (Value β))
  /-- A function or a symbol. -/
  | other

/-- Built-in values are no JSON values: a built-in name that is text, say, is `.json (.string s)`. -/
structure Realm (β : Type) where
  /-- What a value without an own property of that name finds on its prototypes; a getter may throw,
  `none` is `undefined`. -/
  inherited : Json → JsString → Except Failure (Option (Value β))
  property : β → JsString → Except Failure (Option (Value β))
  shape : β → Shape β
  /-- `JSON.stringify`, as text put into a template. -/
  stringify : Value β → JsString

/-- No prototype has any property. -/
def Realm.bare : Realm Empty where
  inherited _ _ := .ok none
  property b := b.elim
  shape b := b.elim
  stringify _ := []

namespace Realm

variable {β : Type} (R : Realm β)

/-- `value[prop]` -/
def get : Value β → JsString → Except Failure (Option (Value β))
  | .json .null, _ => .error (.thrown .typeError)
  | .json v, prop =>
    match v.own prop with
    | some w => .ok (some (.json w))
    | none => R.inherited v prop
  | .builtin b, prop => R.property b prop

inductive Leads : Value β → List JsString → Value β → Prop where
  | nil {v : Value β} : Leads v [] v
  | cons {v w x : Value β} {prop : JsString} {path : List JsString} :
      R.get v prop = .ok (some w) → Leads w path x → Leads v (prop :: path) x

/-- Where the own properties break off, built-in ones lead on. -/
def Strays (body : Json) (path : List JsString) (x : Value β) : Prop :=
  ∃ front prop rest v w, path = front ++ prop :: rest ∧ body.ownAt front = some v ∧
    v.own prop = none ∧ R.get (.json v) prop = .ok (some w) ∧ R.Leads w rest x

end Realm

section

variable {β : Type} {R : Realm β} {body v : Json} {prop : JsString} {path : List JsString}
  {x : Value β}

@[simp] theorem ownAt_nil : body.ownAt [] = some body := rfl

theorem ownAt_cons : body.ownAt (prop :: path) = (body.own prop).bind (·.ownAt path) := rfl

theorem get_own (h : body.own prop = some v) :
    R.get (.json body) prop = .ok (some (.json v)) := by
  cases body with
  | null => cases h
  | bool | number | string | array | object => rw [Realm.get, h]; intro hnull; cases hnull

theorem leads_nil : R.Leads (.json body) [] x ↔ x = .json body := by
  constructor
  · intro h
    cases h
    rfl
  · rintro rfl
    exact .nil

theorem leads_cons {w y : Value β} (h : R.get y prop = .ok (some w)) :
    R.Leads y (prop :: path) x ↔ R.Leads w path x := by
  constructor
  · intro hleads
    cases hleads with
    | cons hget hrest =>
      rw [h] at hget
      cases hget
      exact hrest
  · exact .cons h

/-- A path breaks off at its first step or further on. -/
theorem strays_cons_own (h : body.own prop = some v) :
    R.Strays body (prop :: path) x ↔ R.Strays v path x := by
  constructor
  · rintro ⟨front, p, rest, u, w, hpath, hu, hnone, hget, hrest⟩
    cases front with
    | nil =>
      cases hpath
      cases hu
      rw [h] at hnone
      cases hnone
    | cons q front =>
      cases hpath
      rw [ownAt_cons, h] at hu
      exact ⟨front, p, rest, u, w, rfl, hu, hnone, hget, hrest⟩
  · rintro ⟨front, p, rest, u, w, rfl, hu, hnone, hget, hrest⟩
    refine ⟨prop :: front, p, rest, u, w, rfl, ?_, hnone, hget, hrest⟩
    rw [ownAt_cons, h]
    exact hu

theorem strays_cons_none (h : body.own prop = none) :
    R.Strays body (prop :: path) x ↔ R.Leads (.json body) (prop :: path) x := by
  constructor
  · rintro ⟨front, p, rest, u, w, hpath, hu, hnone, hget, hrest⟩
    cases front with
    | nil =>
      cases hpath
      cases hu
      exact .cons hget hrest
    | cons q front =>
      cases hpath
      rw [ownAt_cons, h] at hu
      cases hu
  · intro hleads
    cases hleads with
    | cons hget hrest => exact ⟨[], prop, path, body, _, rfl, rfl, h, hget, hrest⟩

/-- A path ends in the body, or strays from it. -/
theorem leads_iff (path : List JsString) (body : Json) : R.Leads (.json body) path x ↔
    (∃ v, body.ownAt path = some v ∧ x = .json v) ∨ R.Strays body path x := by
  induction path generalizing body with
  | nil =>
    have hstays : ¬ R.Strays body [] x := by
      rintro ⟨front, p, rest, u, w, hpath, _⟩
      exact absurd hpath.symm (by simp)
    rw [leads_nil]
    simp [hstays]
  | cons prop path ih =>
    cases hown : body.own prop with
    | some v => rw [leads_cons (get_own hown), ih, strays_cons_own hown, ownAt_cons, hown]; rfl
    | none =>
      rw [strays_cons_none hown, ownAt_cons, hown]
      simp

/-- Own properties that reach the end do not break off. -/
theorem not_strays (h : body.ownAt path = some v) : ¬ R.Strays body path x := by
  induction path generalizing body with
  | nil =>
    rintro ⟨front, p, rest, u, w, hpath, _⟩
    exact absurd hpath.symm (by simp)
  | cons prop path ih =>
    cases hown : body.own prop with
    | some w =>
      rw [ownAt_cons, hown] at h
      rw [strays_cons_own hown]
      exact ih h
    | none =>
      rw [ownAt_cons, hown] at h
      cases h

end

end Js
end JsWaku
