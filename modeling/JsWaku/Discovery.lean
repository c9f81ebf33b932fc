import JsWaku.Js.Json
import Mathlib.Data.Set.List

/-!
# JsWaku.Discovery

`getBootstrapNodes` of `lib/discovery.ts`: node addresses out of a JSON body that a remote host
answers.

* `getBootstrapNodes` — walks a property path through the body and lists what it ends at.
* `Lists` — what it is for: text, texts in an array, or the texts of an object.
* `getBootstrapNodes_lists_iff` — it lists just these, unless an array or object at the end holds
  something other than text, or the path strays to built-in values that can be listed.
-/

namespace JsWaku
namespace Discovery

open Js

def defaultPath : List JsString :=
  [units "fleets", units "wakuv2.prod", units "waku-websocket"]

def defaultUrl : String := "https://fleets.status.im/"

section

variable {β : Type} (R : Realm β)

def doesNotExist (prop : JsString) (nodes : Value β) : Failure :=
  .text (units "Failed to retrieve bootstrap nodes: " ++ prop ++ units " does not exist on " ++
    R.stringify nodes)

def notSupported (nodes : Value β) : Failure :=
  .text (units "Failed to retrieve bootstrap nodes: response format is not supported: " ++
    R.stringify nodes)

/-- The `for` loop over the path. -/
def walk : Value β → List JsString → Except Failure (Value β)
  | nodes, [] => .ok nodes
  | nodes, prop :: path =>
    match R.get nodes prop with
    | .error e => .error e
    | .ok none => .error (doesNotExist R prop nodes)
    | .ok (some next) => walk next path

/-- The three type tests after the loop, in order. -/
def nodesOf : Value β → Except Failure (List (Value β))
  | .json (.array elements) => .ok (elements.map .json)
  | .json (.string s) => .ok [.json (.string s)]
  | .json (.object entries) => .ok (entries.map fun e => .json e.2)
  -- `typeof null` is `'object'`, and `Object.values(null)` throws
  | .json .null => .error (.thrown .typeError)
  | .json (.bool b) => .error (notSupported R (.json (.bool b)))
  | .json (.number n) => .error (notSupported R (.json (.number n)))
  | .builtin b =>
    match R.shape b with
    | .array elements => .ok elements
    | .object values => .ok values
    | .other => .error (notSupported R (.builtin b))

/-- `axios url` is the body of the answer, or how the request fails. -/
def getBootstrapNodes (axios : String → Except Failure Json) (path : List JsString := defaultPath)
    (url : String := defaultUrl) : Except Failure (List (Value β)) :=
  match axios url with
  | .error e => .error e
  | .ok data =>
    match walk R (.json data) path with
    | .error e => .error e
    | .ok nodes => nodesOf R nodes

end

/-! ## What it is for -/

/-- The addresses a JSON value stands for. -/
inductive Addresses : Json → List JsString → Prop where
  | string (s : JsString) : Addresses (.string s) [s]
  | array (ss : List JsString) : Addresses (.array (ss.map .string)) ss
  | object (es : List (JsString × JsString)) :
      Addresses (.object (es.map fun e => (e.1, .string e.2))) (es.map Prod.snd)

def Lists {β : Type} (body : Json) (path : List JsString) (result : List (Value β)) : Prop :=
  ∃ v ss, body.ownAt path = some v ∧ Addresses v ss ∧ result = ss.map fun s => .json (.string s)

/-- What it is for is what it returns, and for anything else it throws. -/
def ListsExactly {β : Type} (R : Realm β) (axios : String → Except Failure Json)
    (path : List JsString) (url : String) (body : Json) : Prop :=
  ∀ result, getBootstrapNodes R axios path url = .ok result ↔ Lists body path result

/-- An array or an object with something other than text in it. -/
def Mixed : Json → Prop
  | .array elements => ∃ e ∈ elements, ∀ s, e ≠ .string s
  | .object entries => ∃ e ∈ entries, ∀ s, e.2 ≠ .string s
  | _ => False

/-- A string, an array or an object, `null` not being one. -/
def Listable {β : Type} (R : Realm β) : Value β → Prop
  | .json (.string _) | .json (.array _) | .json (.object _) => True
  | .json _ => False
  | .builtin b =>
    match R.shape b with
    | .other => False
    | _ => True

section

variable {β : Type} {R : Realm β} {axios : String → Except Failure Json} {url : String}
  {body v : Json} {path : List JsString} {x : Value β} {result : List (Value β)}

theorem walk_ok_iff (path : List JsString) (nodes : Value β) :
    walk R nodes path = .ok x ↔ R.Leads nodes path x := by
  induction path generalizing nodes with
  | nil =>
    constructor
    · intro h
      cases h
      exact .nil
    · intro h
      cases h
      rfl
  | cons prop path ih =>
    unfold walk
    split
    · rename_i heq
      constructor
      · intro h
        cases h
      · intro h
        cases h with
        | cons hget _ => rw [heq] at hget; cases hget
    · rename_i heq
      constructor
      · intro h
        cases h
      · intro h
        cases h with
        | cons hget _ => rw [heq] at hget; cases hget
    · rename_i heq
      rw [ih, leads_cons heq]

theorem listable_iff : Listable R x ↔ ∃ result, nodesOf R x = .ok result := by
  cases x with
  | json v => cases v <;> simp [Listable, nodesOf]
  | builtin b =>
    rw [Listable, nodesOf]
    cases R.shape b <;> simp

theorem getBootstrapNodes_ok_iff (h : axios url = .ok body) :
    getBootstrapNodes R axios path url = .ok result ↔
      ∃ x, R.Leads (.json body) path x ∧ nodesOf R x = .ok result := by
  rw [getBootstrapNodes, h]
  simp only
  constructor
  · intro hok
    split at hok
    · cases hok
    · rename_i nodes hwalk
      exact ⟨nodes, (walk_ok_iff path _).mp hwalk, hok⟩
  · rintro ⟨x, hleads, hok⟩
    rw [(walk_ok_iff path _).mpr hleads]
    exact hok

/-- What has addresses is listed as them. -/
theorem Addresses.nodesOf {ss : List JsString} (h : Addresses v ss) :
    nodesOf R (.json v) = .ok (ss.map fun s => .json (.string s)) := by
  cases h with
  | string s => rfl
  | array ss => rw [Discovery.nodesOf, List.map_map]; rfl
  | object es => rw [Discovery.nodesOf, List.map_map, List.map_map]; rfl

theorem Addresses.not_mixed {ss : List JsString} (h : Addresses v ss) : ¬ Mixed v := by
  cases h with
  | string s => exact id
  | array ss =>
    rintro ⟨e, he, hno⟩
    obtain ⟨s, _, rfl⟩ := List.mem_map.mp he
    exact hno s rfl
  | object es =>
    rintro ⟨e, he, hno⟩
    obtain ⟨e, _, rfl⟩ := List.mem_map.mp he
    exact hno e.2 rfl

theorem addresses_of_not_mixed (h : ¬ Mixed v) (hv : nodesOf R (.json v) = .ok result) :
    ∃ ss, Addresses v ss := by
  cases v with
  | null | bool | number => cases hv
  | string s => exact ⟨_, .string s⟩
  | array elements =>
    have htext : elements ∈ Set.range (List.map Json.string) := by
      rw [Set.range_list_map]
      intro e he
      by_contra hno
      exact h ⟨e, he, fun s hs => hno ⟨s, hs.symm⟩⟩
    obtain ⟨ss, rfl⟩ := htext
    exact ⟨_, .array ss⟩
  | object entries =>
    have htext : entries ∈ Set.range (List.map fun e : JsString × JsString =>
        (e.1, Json.string e.2)) := by
      rw [Set.range_list_map]
      intro e he
      by_contra hno
      refine h ⟨e, he, fun s hs => hno ⟨(e.1, s), ?_⟩⟩
      show (e.1, Json.string s) = e
      rw [← hs]
    obtain ⟨es, rfl⟩ := htext
    exact ⟨_, .object es⟩

theorem Mixed.listable (h : Mixed v) : Listable R (.json v) := by
  cases v with
  | null | bool | number | string => cases h
  | array | object => trivial

theorem lists_iff (h : body.ownAt path = some v) : Lists body path result ↔
    ∃ ss, Addresses v ss ∧ nodesOf R (.json v) = .ok result := by
  constructor
  · rintro ⟨w, ss, hw, hss, rfl⟩
    rw [h] at hw
    cases hw
    exact ⟨ss, hss, hss.nodesOf⟩
  · rintro ⟨ss, hss, hok⟩
    rw [hss.nodesOf] at hok
    cases hok
    exact ⟨v, ss, h, hss, rfl⟩

/-- At the end of a path in the body, only the elements can be wrong. -/
theorem lists_own_iff (h : body.ownAt path = some v) :
    (∀ result, nodesOf R (.json v) = .ok result ↔ Lists body path result) ↔ ¬ Mixed v := by
  constructor
  · intro hall hmixed
    obtain ⟨result, hok⟩ := listable_iff.mp (hmixed.listable (R := R))
    obtain ⟨ss, hss, _⟩ := (lists_iff (R := R) h).mp ((hall result).mp hok)
    exact hss.not_mixed hmixed
  · intro hmixed result
    rw [lists_iff h]
    constructor
    · intro hok
      obtain ⟨ss, hss⟩ := addresses_of_not_mixed hmixed hok
      exact ⟨ss, hss, hok⟩
    · rintro ⟨_, _, hok⟩
      exact hok

theorem getBootstrapNodes_lists_iff (h : axios url = .ok body) :
    ListsExactly R axios path url body ↔
      (∀ v, body.ownAt path = some v → ¬ Mixed v) ∧
        ¬ ∃ x, R.Strays body path x ∧ Listable R x := by
  simp only [ListsExactly, getBootstrapNodes_ok_iff h, leads_iff]
  cases hown : body.ownAt path with
  | some v =>
    -- the path ends at `v`, so it strays nowhere
    have hstays : ∀ x, ¬ R.Strays body path x := fun x => not_strays hown
    simp only [hstays, or_false, false_and, exists_false, not_false_eq_true, and_true]
    simp only [Option.some.injEq, forall_eq', exists_eq_left', exists_eq_left]
    exact lists_own_iff hown
  | none =>
    have hlists : ∀ result : List (Value β), ¬ Lists body path result := by
      rintro result ⟨v, ss, hv, _⟩
      rw [hown] at hv
      cases hv
    simp only [hlists, listable_iff, iff_false]
    simp only [reduceCtorEq, false_and, exists_false, false_or, false_imp_iff, implies_true, true_and]
    constructor
    · rintro hall ⟨x, hx, result, hok⟩
      exact hall result ⟨x, hx, hok⟩
    · rintro hnone result ⟨x, hx, hok⟩
      exact hnone ⟨x, hx, result, hok⟩

end

/-- `{ "nodes": … }` -/
def nodesBody (nodes : Json) : Json := .object [(units "nodes", nodes)]

theorem nodesBody_ownAt (nodes : Json) : (nodesBody nodes).ownAt [units "nodes"] = some nodes := by
  have hown : (nodesBody nodes).own (units "nodes") = some nodes := by
    rw [Json.own, nodesBody, Json.ownProperties, List.lookup_cons_self]
  rw [ownAt_cons, hown]
  rfl

/-- One address, where the path says. -/
theorem getBootstrapNodes_lists_one :
    ListsExactly Realm.bare (fun _ => .ok (nodesBody (.array [.string [47]]))) [units "nodes"]
      defaultUrl (nodesBody (.array [.string [47]])) := by
  refine (getBootstrapNodes_lists_iff rfl).mpr ⟨fun v hv => ?_, ?_⟩
  · rw [nodesBody_ownAt] at hv
    cases hv
    exact (Addresses.array [[47]]).not_mixed
  · rintro ⟨x, hx, _⟩
    exact not_strays (nodesBody_ownAt _) hx

/-- A number in the array is listed as if it were an address. -/
theorem getBootstrapNodes_mixed :
    getBootstrapNodes Realm.bare (fun _ => .ok (nodesBody (.array [.number 1]))) [units "nodes"] =
        .ok [.json (.number 1)] ∧
      ¬ ListsExactly Realm.bare (fun _ => .ok (nodesBody (.array [.number 1]))) [units "nodes"]
        defaultUrl (nodesBody (.array [.number 1])) := by
  have hget : getBootstrapNodes Realm.bare (fun _ => .ok (nodesBody (.array [.number 1])))
      [units "nodes"] = .ok [.json (.number 1)] := by
    refine (@getBootstrapNodes_ok_iff _ _ _ defaultUrl _ _ _ rfl).mpr
      ⟨.json (.array [.number 1]), ?_, rfl⟩
    exact (leads_iff _ _).mpr (.inl ⟨_, nodesBody_ownAt _, rfl⟩)
  refine ⟨hget, fun hall => ?_⟩
  obtain ⟨v, ss, hv, hss, _⟩ := (hall _).mp hget
  rw [nodesBody_ownAt] at hv
  cases hv
  exact hss.not_mixed ⟨_, List.mem_cons_self, fun s hs => by cases hs⟩

end Discovery
end JsWaku
