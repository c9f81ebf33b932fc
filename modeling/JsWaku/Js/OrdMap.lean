import Mathlib.Data.List.Basic
import Mathlib.Data.List.Nodup

/-!
# JsWaku.Js.OrdMap

A JavaScript `Map`: entries with different keys, in the order of their insertion.

* `mapAccum` — `m.forEach((v, k) => ..)` whose body edits the value at hand and some state.
* `mapAccum_get` — such a loop does to one entry what its body does, if the rounds on the other
  entries leave alone what belongs to that one.
-/

namespace JsWaku
namespace Js

structure OrdMap (κ ν : Type) where
  entries : List (κ × ν)
  nodup : (entries.map Prod.fst).Nodup

namespace OrdMap

variable {κ ν : Type}

def empty : OrdMap κ ν := ⟨[], List.nodup_nil⟩

/-- `m.forEach((v, k) => { if (!p(k, v)) m.delete(k) })` -/
def filter (m : OrdMap κ ν) (p : κ × ν → Bool) : OrdMap κ ν where
  entries := m.entries.filter p
  nodup := m.nodup.sublist (List.Sublist.map _ List.filter_sublist)

section

variable {σ : Type}

def accum (f : κ → ν → σ → ν × σ) : List (κ × ν) → σ → List (κ × ν) × σ
  | [], s => ([], s)
  | (k, v) :: rest, s =>
    let (v', s) := f k v s
    let (rest, s) := accum f rest s
    ((k, v') :: rest, s)

theorem accum_keys (f : κ → ν → σ → ν × σ) (l : List (κ × ν)) (s : σ) :
    (accum f l s).1.map Prod.fst = l.map Prod.fst := by
  induction l generalizing s with
  | nil => rfl
  | cons e l ih => simp [accum, ih]

def mapAccum (f : κ → ν → σ → ν × σ) (m : OrdMap κ ν) (s : σ) : OrdMap κ ν × σ :=
  (⟨(accum f m.entries s).1, by rw [accum_keys]; exact m.nodup⟩, (accum f m.entries s).2)

variable {f : κ → ν → σ → ν × σ} {R : σ → σ → Prop} {k : κ}

/-- Rounds on other entries change nothing that `R` keeps. -/
theorem accum_frame (hrefl : ∀ s, R s s) (htrans : ∀ {s s' s''}, R s s' → R s' s'' → R s s'')
    (hf : ∀ k' v s, k' ≠ k → R s (f k' v s).2) {l : List (κ × ν)} (hl : k ∉ l.map Prod.fst) (s : σ) :
    R s (accum f l s).2 := by
  induction l generalizing s with
  | nil => exact hrefl s
  | cons e l ih =>
    simp only [List.map_cons, List.mem_cons, not_or] at hl
    exact htrans (hf e.1 e.2 s (Ne.symm hl.1)) (ih hl.2 _)

/-- What every round keeps, the loop keeps. -/
theorem mapAccum_invariant {I : σ → Prop} (hf : ∀ k v s, I s → I (f k v s).2) (m : OrdMap κ ν)
    {s : σ} (hs : I s) : I (mapAccum f m s).2 := by
  have h : ∀ (l : List (κ × ν)) s, I s → I (accum f l s).2 := by
    intro l
    induction l with
    | nil => intro s hs; exact hs
    | cons e l ih => intro s hs; exact ih _ (hf _ _ _ hs)
  exact h m.entries s hs

/-- `m.forEach((v) => ..)` whose body only edits the value at hand. -/
def mapValues (g : ν → ν) (m : OrdMap κ ν) : OrdMap κ ν :=
  (m.mapAccum (fun _ v (_ : Unit) => (g v, ())) ()).1

end

/-! ## Lookup and update -/

variable [DecidableEq κ]

def lookup (k : κ) : List (κ × ν) → Option ν
  | [] => none
  | (k', v) :: rest => if k' = k then some v else lookup k rest

def get (m : OrdMap κ ν) (k : κ) : Option ν := lookup k m.entries

/-- The entry of an existing key stays in its place. -/
def update (k : κ) (v : ν) : List (κ × ν) → List (κ × ν)
  | [] => [(k, v)]
  | (k', v') :: rest => if k' = k then (k, v) :: rest else (k', v') :: update k v rest

theorem mem_keys_update {k k' : κ} {v : ν} {l : List (κ × ν)} :
    k' ∈ (update k v l).map Prod.fst ↔ k' = k ∨ k' ∈ l.map Prod.fst := by
  induction l with
  | nil => simp [update]
  | cons e l ih =>
    rw [update]
    split
    · rename_i h
      simp [← h]
    · simp only [List.map_cons, List.mem_cons, ih]
      tauto

theorem nodup_update {k : κ} {v : ν} {l : List (κ × ν)} (h : (l.map Prod.fst).Nodup) :
    ((update k v l).map Prod.fst).Nodup := by
  induction l with
  | nil => simp [update]
  | cons e l ih =>
    rw [List.map_cons, List.nodup_cons] at h
    rw [update]
    split
    · rename_i hk
      rw [List.map_cons, List.nodup_cons, ← hk]
      exact h
    · rename_i hk
      rw [List.map_cons, List.nodup_cons, mem_keys_update]
      exact ⟨by rintro (he | he); exacts [hk he, h.1 he], ih h.2⟩

def set (m : OrdMap κ ν) (k : κ) (v : ν) : OrdMap κ ν := ⟨update k v m.entries, nodup_update m.nodup⟩

def delete (m : OrdMap κ ν) (k : κ) : OrdMap κ ν := m.filter fun e => e.1 ≠ k

theorem lookup_update (k k' : κ) (v : ν) (l : List (κ × ν)) :
    lookup k' (update k v l) = if k = k' then some v else lookup k' l := by
  induction l with
  | nil => simp [update, lookup]
  | cons e l ih =>
    rw [update]
    by_cases he : e.1 = k
    · rw [if_pos he]
      simp only [lookup, he]
      split <;> rfl
    · rw [if_neg he]
      simp only [lookup, ih]
      by_cases hk : k = k'
      · subst hk; simp [he]
      · simp [hk]

@[simp] theorem get_set_self (m : OrdMap κ ν) (k : κ) (v : ν) : (m.set k v).get k = some v := by
  simp [get, set, lookup_update]

theorem get_set (m : OrdMap κ ν) (k k' : κ) (v : ν) :
    (m.set k v).get k' = if k = k' then some v else m.get k' := lookup_update k k' v m.entries

theorem get_set_of_ne {k k' : κ} (h : k ≠ k') (m : OrdMap κ ν) (v : ν) :
    (m.set k v).get k' = m.get k' := by
  simp [get, set, lookup_update, h]

theorem lookup_eq_none {k : κ} {l : List (κ × ν)} : lookup k l = none ↔ k ∉ l.map Prod.fst := by
  induction l with
  | nil => simp [lookup]
  | cons e l ih =>
    rw [lookup]
    split
    · rename_i h; simp [h]
    · rename_i h
      simp only [ih, List.map_cons, List.mem_cons, not_or]
      exact ⟨fun h' => ⟨fun he => h he.symm, h'⟩, fun h' => h'.2⟩

/-- The entry found splits the list in two parts without the key. -/
theorem lookup_eq_some {k : κ} {v : ν} {l : List (κ × ν)} (hl : (l.map Prod.fst).Nodup) :
    lookup k l = some v ↔ (k, v) ∈ l := by
  induction l with
  | nil => simp [lookup]
  | cons e l ih =>
    rw [List.map_cons, List.nodup_cons] at hl
    rw [lookup]
    split
    · rename_i hk
      constructor
      · intro h
        cases h
        rw [← hk]
        simp
      · intro h
        rcases List.mem_cons.mp h with rfl | h
        · rfl
        · exact absurd (List.mem_map.mpr ⟨_, h, rfl⟩) (hk ▸ hl.1)
    · rename_i hk
      rw [ih hl.2, List.mem_cons]
      exact ⟨.inr, fun h => h.resolve_left (by rintro rfl; exact hk rfl)⟩

theorem mem_entries {m : OrdMap κ ν} {k : κ} {v : ν} : (k, v) ∈ m.entries ↔ m.get k = some v :=
  (lookup_eq_some m.nodup).symm

/-- The entry of a key, which is in one place only. -/
theorem entries_of_get {m : OrdMap κ ν} {k : κ} {v : ν} (h : m.get k = some v) :
    ∃ before after, m.entries = before ++ (k, v) :: after ∧ k ∉ before.map Prod.fst ∧
      k ∉ after.map Prod.fst := by
  obtain ⟨before, after, heq⟩ := List.append_of_mem (mem_entries.mpr h)
  have hnodup := m.nodup
  rw [heq, List.map_append, List.map_cons, List.nodup_middle, List.nodup_cons, List.mem_append,
    not_or] at hnodup
  exact ⟨before, after, heq, hnodup.1⟩

theorem get_filter (m : OrdMap κ ν) (p : κ × ν → Bool) (k : κ) :
    (m.filter p).get k = (m.get k).filter fun v => p (k, v) := by
  cases hv : (m.filter p).get k with
  | some v =>
    have hmem := mem_entries.mpr hv
    obtain ⟨hmem, hp⟩ := List.mem_filter.mp hmem
    rw [mem_entries.mp hmem]
    simp [Option.filter, hp]
  | none =>
    cases hm : m.get k with
    | none => rfl
    | some v =>
      by_cases hp : p (k, v) = true
      · have hmem : (k, v) ∈ (m.filter p).entries :=
          List.mem_filter.mpr ⟨mem_entries.mpr hm, hp⟩
        rw [mem_entries.mp hmem] at hv
        cases hv
      · simp [Option.filter, hp]

@[simp] theorem get_delete_self (m : OrdMap κ ν) (k : κ) : (m.delete k).get k = none := by
  rw [delete, get_filter]
  cases m.get k <;> simp [Option.filter]

theorem get_delete_of_ne {k k' : κ} (h : k ≠ k') (m : OrdMap κ ν) :
    (m.delete k).get k' = m.get k' := by
  rw [delete, get_filter]
  cases m.get k' <;> simp [Option.filter, Ne.symm h]

theorem get_delete_some {m : OrdMap κ ν} {k k' : κ} {v : ν} (h : (m.delete k).get k' = some v) :
    k ≠ k' ∧ m.get k' = some v := by
  by_cases hk : k = k'
  · rw [← hk, get_delete_self] at h
    cases h
  · rw [get_delete_of_ne hk] at h
    exact ⟨hk, h⟩

section

variable {σ : Type}

/-- The state when the loop comes to the entry of `k`. -/
def before (f : κ → ν → σ → ν × σ) (k : κ) : List (κ × ν) → σ → σ
  | [], s => s
  | (k', v) :: rest, s => if k' = k then s else before f k rest (f k' v s).2

def stateBefore (f : κ → ν → σ → ν × σ) (m : OrdMap κ ν) (k : κ) (s : σ) : σ :=
  before f k m.entries s

variable {f : κ → ν → σ → ν × σ} {R : σ → σ → Prop} {k : κ} {v : ν}

theorem accum_lookup (hrefl : ∀ s, R s s) (htrans : ∀ {s s' s''}, R s s' → R s' s'' → R s s'')
    (hf : ∀ k' v s, k' ≠ k → R s (f k' v s).2) {l : List (κ × ν)} (hl : (l.map Prod.fst).Nodup)
    (hv : lookup k l = some v) (s : σ) :
    R s (before f k l s) ∧ lookup k (accum f l s).1 = some (f k v (before f k l s)).1 ∧
      R (f k v (before f k l s)).2 (accum f l s).2 := by
  induction l generalizing s with
  | nil => cases hv
  | cons e l ih =>
    obtain ⟨hk, hl⟩ := List.nodup_cons.mp hl
    simp only [lookup] at hv
    by_cases he : e.1 = k
    · rw [if_pos he] at hv
      cases hv
      subst he
      simp only [before, accum, lookup, ite_true]
      exact ⟨hrefl s, trivial, accum_frame hrefl htrans hf hk _⟩
    · rw [if_neg he] at hv
      simp only [before, accum, lookup, he, ite_false]
      obtain ⟨h₁, h₂, h₃⟩ := ih hl hv (f e.1 e.2 s).2
      exact ⟨htrans (hf e.1 e.2 s he) h₁, h₂, h₃⟩

theorem mapAccum_get (hrefl : ∀ s, R s s) (htrans : ∀ {s s' s''}, R s s' → R s' s'' → R s s'')
    (hf : ∀ k' v s, k' ≠ k → R s (f k' v s).2) {m : OrdMap κ ν} (hv : m.get k = some v) (s : σ) :
    R s (stateBefore f m k s) ∧
      (mapAccum f m s).1.get k = some (f k v (stateBefore f m k s)).1 ∧
      R (f k v (stateBefore f m k s)).2 (mapAccum f m s).2 :=
  accum_lookup hrefl htrans hf m.nodup hv s

theorem mapAccum_get_none (hrefl : ∀ s, R s s)
    (htrans : ∀ {s s' s''}, R s s' → R s' s'' → R s s'')
    (hf : ∀ k' v s, k' ≠ k → R s (f k' v s).2) {m : OrdMap κ ν} (hm : m.get k = none) (s : σ) :
    (mapAccum f m s).1.get k = none ∧ R s (mapAccum f m s).2 := by
  have hk : k ∉ m.entries.map Prod.fst := lookup_eq_none.mp hm
  refine ⟨lookup_eq_none.mpr ?_, accum_frame hrefl htrans hf hk s⟩
  rw [mapAccum, accum_keys]
  exact hk

/-- What some round brings about for good, the loop does if one of the entries is such. -/
theorem mapAccum_exists {P : σ → Prop} {Q : κ → ν → Prop}
    (hf : ∀ k v s, P (f k v s).2 ↔ P s ∨ Q k v) (m : OrdMap κ ν) (s : σ) :
    P (mapAccum f m s).2 ↔ P s ∨ ∃ k v, m.get k = some v ∧ Q k v := by
  have h : ∀ (l : List (κ × ν)) s, P (accum f l s).2 ↔ P s ∨ ∃ e ∈ l, Q e.1 e.2 := by
    intro l
    induction l with
    | nil => simp [accum]
    | cons e l ih =>
      intro s
      simp only [accum, ih, hf, List.exists_mem_cons_iff, or_assoc]
  rw [mapAccum, h]
  refine or_congr_right ?_
  constructor
  · rintro ⟨⟨k, v⟩, hmem, hQ⟩
    exact ⟨k, v, mem_entries.mp hmem, hQ⟩
  · rintro ⟨k, v, hget, hQ⟩
    exact ⟨(k, v), mem_entries.mpr hget, hQ⟩

/-- A loop that only edits the values. -/
theorem mapAccum_get_unit (g : κ → ν → ν) (m : OrdMap κ ν) (k : κ) :
    (mapAccum (fun k v (_ : Unit) => (g k v, ())) m ()).1.get k = (m.get k).map (g k) := by
  cases hm : m.get k with
  | some v =>
    exact (mapAccum_get (R := fun _ _ => True) (fun _ => trivial) (fun _ _ => trivial)
      (fun _ _ _ _ => trivial) hm ()).2.1
  | none =>
    exact (mapAccum_get_none (R := fun _ _ => True) (fun _ => trivial) (fun _ _ => trivial)
      (fun _ _ _ _ => trivial) hm ()).1

theorem get_mapValues (g : ν → ν) (m : OrdMap κ ν) (k : κ) :
    (m.mapValues g).get k = (m.get k).map g := mapAccum_get_unit (fun _ => g) m k

theorem get_mapValues_some {g : ν → ν} {m : OrdMap κ ν} (h : (m.mapValues g).get k = some v) :
    ∃ v', m.get k = some v' ∧ v = g v' := by
  rw [get_mapValues, Option.map_eq_some_iff] at h
  obtain ⟨v', hv', rfl⟩ := h
  exact ⟨v', hv', rfl⟩

end

end OrdMap
end Js
end JsWaku
