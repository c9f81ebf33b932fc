import Mathlib.Data.List.Basic
import Mathlib.Data.List.Nodup
import Mathlib.Tactic.Tauto

/-!
# JsWaku.Js.OrdSet

A JavaScript `Set`: its elements without repetition, in the order of their insertion.

Iterating with `forEach` while deleting the element at hand visits every element once, so such a
loop is a fold over `toList`.
-/

namespace JsWaku
namespace Js

structure OrdSet (α : Type) where
  toList : List α
  nodup : toList.Nodup

namespace OrdSet

variable {α : Type}

def empty : OrdSet α := ⟨[], List.nodup_nil⟩

instance : Membership α (OrdSet α) := ⟨fun s a => a ∈ s.toList⟩

theorem mem_def {s : OrdSet α} {a : α} : a ∈ s ↔ a ∈ s.toList := Iff.rfl

def size (s : OrdSet α) : Nat := s.toList.length

/-- `s.forEach((a) => { if (!p(a)) s.delete(a) })` -/
def filter (s : OrdSet α) (p : α → Bool) : OrdSet α := ⟨s.toList.filter p, s.nodup.filter p⟩

@[simp] theorem mem_filter {s : OrdSet α} {p : α → Bool} {a : α} :
    a ∈ s.filter p ↔ a ∈ s ∧ p a = true := List.mem_filter

theorem size_filter_le (s : OrdSet α) (p : α → Bool) : (s.filter p).size ≤ s.size :=
  List.length_filter_le _ _

theorem filter_eq_self {s : OrdSet α} {p : α → Bool} (h : ∀ a, a ∈ s → p a = true) :
    s.filter p = s := by
  obtain ⟨l, hl⟩ := s
  simp only [filter, mk.injEq]
  exact List.filter_eq_self.mpr h

@[simp] theorem not_mem_empty {a : α} : ¬ a ∈ (empty : OrdSet α) := List.not_mem_nil

theorem size_pos_of_mem {s : OrdSet α} {a : α} (h : a ∈ s) : 0 < s.size := List.length_pos_of_mem h

theorem exists_mem_iff {s : OrdSet α} : (∃ a, a ∈ s) ↔ s.size ≠ 0 := by
  rw [← Nat.pos_iff_ne_zero]
  exact List.length_pos_iff_exists_mem.symm

variable [DecidableEq α]

instance (s : OrdSet α) (a : α) : Decidable (a ∈ s) := inferInstanceAs (Decidable (a ∈ s.toList))

def has (s : OrdSet α) (a : α) : Bool := decide (a ∈ s)

def add (s : OrdSet α) (a : α) : OrdSet α :=
  if h : a ∈ s then s
  else ⟨s.toList ++ [a], s.nodup.append (List.nodup_singleton a) (by simpa [mem_def] using h)⟩

def delete (s : OrdSet α) (a : α) : OrdSet α := ⟨s.toList.erase a, s.nodup.erase a⟩

/-- `new Set(list)` -/
def ofList (l : List α) : OrdSet α := l.foldl add empty

@[simp] theorem has_iff {s : OrdSet α} {a : α} : s.has a = true ↔ a ∈ s := decide_eq_true_iff

@[simp] theorem mem_add {s : OrdSet α} {a b : α} : b ∈ s.add a ↔ b = a ∨ b ∈ s := by
  unfold add
  split
  · rename_i h
    exact ⟨.inr, fun h' => h'.elim (fun e => e ▸ h) id⟩
  · simp [mem_def, or_comm]

@[simp] theorem mem_delete {s : OrdSet α} {a b : α} : b ∈ s.delete a ↔ b ≠ a ∧ b ∈ s :=
  s.nodup.mem_erase_iff

theorem add_of_mem {s : OrdSet α} {a : α} (h : a ∈ s) : s.add a = s := dif_pos h

theorem size_add {s : OrdSet α} {a : α} (h : ¬ a ∈ s) : (s.add a).size = s.size + 1 := by
  simp [add, h, size]

theorem size_add_le (s : OrdSet α) (a : α) : (s.add a).size ≤ s.size + 1 := by
  by_cases h : a ∈ s
  · rw [add_of_mem h]
    omega
  · exact Nat.le_of_eq (size_add h)

theorem size_foldl_add_le (s : OrdSet α) (l : List α) : (l.foldl add s).size ≤ s.size + l.length := by
  induction l generalizing s with
  | nil => exact Nat.le_refl _
  | cons a l ih =>
    have h := ih (s.add a)
    have ha := size_add_le s a
    rw [List.foldl_cons, List.length_cons]
    omega

theorem size_delete {s : OrdSet α} {a : α} (h : a ∈ s) : (s.delete a).size = s.size - 1 :=
  List.length_erase_of_mem h

theorem mem_foldl_add {s : OrdSet α} {l : List α} {a : α} : a ∈ l.foldl add s ↔ a ∈ l ∨ a ∈ s := by
  induction l generalizing s with
  | nil => simp
  | cons b l ih =>
    rw [List.foldl_cons, ih, mem_add, List.mem_cons]
    tauto

theorem foldl_add_toList {s : OrdSet α} {l : List α} (hl : l.Nodup) (h : ∀ a ∈ l, ¬ a ∈ s) :
    (l.foldl add s).toList = s.toList ++ l := by
  induction l generalizing s with
  | nil => simp
  | cons a l ih =>
    obtain ⟨ha, hl⟩ := List.nodup_cons.mp hl
    have hs : ¬ a ∈ s := h a (by simp)
    rw [List.foldl_cons, ih hl]
    · simp [add, hs]
    · intro b hb
      rw [mem_add]
      rintro (rfl | hb')
      · exact ha hb
      · exact h b (by simp [hb]) hb'

/-- Without repetition there is nothing to drop. -/
theorem toList_ofList {l : List α} (hl : l.Nodup) : (ofList l).toList = l := by
  rw [ofList, foldl_add_toList hl fun _ _ => not_mem_empty]
  rfl

end OrdSet
end Js
end JsWaku
