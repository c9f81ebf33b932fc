import Mathlib.Data.Set.Basic
import Mathlib.Tactic.Tauto

/-!
# JsWaku.Lib.Ledger

A set edited one element at a time, with a note of every edit.

* `Mirrors start L` — the notes account for the change since `start`: nothing is noted twice, what
  was taken out was there, what was put in was not, and the set is what the notes make of it.
* `Mirrors.remove`, `Mirrors.add` — when one edit keeps that.
* `not_mirrors_addAll` — putting in what is there already breaks it for good.
-/

structure Ledger (α : Type) where
  members : Set α
  added : α → Nat
  removed : α → Nat

namespace Ledger

variable {α : Type}

structure Mirrors (start : Set α) (L : Ledger α) : Prop where
  members : ∀ x, x ∈ L.members ↔ (x ∈ start ∧ L.removed x = 0) ∨ L.added x ≠ 0
  removed_mem : ∀ x, L.removed x ≠ 0 → x ∈ start
  added_new : ∀ x, L.added x ≠ 0 → x ∉ start
  removed_once : ∀ x, L.removed x ≤ 1
  added_once : ∀ x, L.added x ≤ 1

def fresh (start : Set α) : Ledger α := ⟨start, fun _ => 0, fun _ => 0⟩

theorem mirrors_fresh (start : Set α) : Mirrors start (fresh start) where
  members x := by simp [fresh]
  removed_mem x h := absurd rfl h
  added_new x h := absurd rfl h
  removed_once _ := Nat.zero_le _
  added_once _ := Nat.zero_le _

variable [DecidableEq α]

def add (L : Ledger α) (x : α) : Ledger α where
  members := {y | y = x ∨ y ∈ L.members}
  added := fun y => if y = x then L.added y + 1 else L.added y
  removed := L.removed

def remove (L : Ledger α) (x : α) : Ledger α where
  members := {y | y ≠ x ∧ y ∈ L.members}
  added := L.added
  removed := fun y => if y = x then L.removed y + 1 else L.removed y

def addAll (L : Ledger α) (xs : List α) : Ledger α := xs.foldl add L

def removeAll (L : Ledger α) (xs : List α) : Ledger α := xs.foldl remove L

section

variable {start : Set α} {L : Ledger α} {x : α}

theorem Mirrors.remove (h : Mirrors start L) (hx : x ∈ L.members) (hnew : L.added x = 0) :
    Mirrors start (L.remove x) := by
  have hin : x ∈ start ∧ L.removed x = 0 := by simpa [hnew] using (h.members x).mp hx
  constructor
  · intro y
    by_cases hy : y = x
    · subst hy
      simp [Ledger.remove, hnew]
    · simpa [Ledger.remove, hy] using h.members y
  · intro y hy
    by_cases hyx : y = x
    · exact hyx ▸ hin.1
    · exact h.removed_mem y (by simpa [Ledger.remove, hyx] using hy)
  · exact h.added_new
  · intro y
    by_cases hyx : y = x
    · subst hyx
      simp [Ledger.remove, hin.2]
    · simpa [Ledger.remove, hyx] using h.removed_once y
  · exact h.added_once

theorem Mirrors.add (h : Mirrors start L) (hx : x ∉ L.members) (hgone : L.removed x = 0) :
    Mirrors start (L.add x) := by
  have hout : x ∉ start ∧ L.added x = 0 := by
    have := mt (h.members x).mpr hx
    simpa [hgone] using this
  constructor
  · intro y
    by_cases hy : y = x
    · subst hy
      simp [Ledger.add]
    · simpa [Ledger.add, hy] using h.members y
  · exact h.removed_mem
  · intro y hy
    by_cases hyx : y = x
    · exact hyx ▸ hout.1
    · exact h.added_new y (by simpa [Ledger.add, hyx] using hy)
  · exact h.removed_once
  · intro y
    by_cases hyx : y = x
    · subst hyx
      simp [Ledger.add, hout.2]
    · simpa [Ledger.add, hyx] using h.added_once y

theorem addAll_added_le (xs : List α) : L.added x ≤ (L.addAll xs).added x := by
  induction xs generalizing L with
  | nil => exact Nat.le_refl _
  | cons y xs ih =>
    refine Nat.le_trans ?_ ih
    simp only [Ledger.add]
    split <;> omega

theorem addAll_added_lt {xs : List α} (hx : x ∈ xs) : L.added x < (L.addAll xs).added x := by
  induction xs generalizing L with
  | nil => cases hx
  | cons y xs ih =>
    by_cases hy : x = y
    · subst hy
      refine Nat.lt_of_lt_of_le ?_ (addAll_added_le xs)
      simp [Ledger.add]
    · have hlt := @ih (L.add y) (by simpa [hy] using hx)
      simpa [Ledger.add, hy, Ledger.addAll] using hlt

theorem mem_addAll {xs : List α} : x ∈ (L.addAll xs).members ↔ x ∈ xs ∨ x ∈ L.members := by
  induction xs generalizing L with
  | nil => simp [addAll]
  | cons y xs ih =>
    rw [addAll, List.foldl_cons, ← addAll, ih]
    simp only [Ledger.add, Set.mem_ofPred_eq, List.mem_cons]
    tauto

theorem mem_removeAll {xs : List α} :
    x ∈ (L.removeAll xs).members ↔ x ∉ xs ∧ x ∈ L.members := by
  induction xs generalizing L with
  | nil => simp [removeAll]
  | cons y xs ih =>
    rw [removeAll, List.foldl_cons, ← removeAll, ih]
    simp only [Ledger.remove, Set.mem_ofPred_eq, List.mem_cons]
    tauto

theorem Mirrors.removeAll {xs : List α} (h : Mirrors start L) (hxs : xs.Nodup)
    (hmem : ∀ x ∈ xs, x ∈ L.members) (hnew : ∀ x ∈ xs, L.added x = 0) :
    Mirrors start (L.removeAll xs) := by
  induction xs generalizing L with
  | nil => exact h
  | cons y xs ih =>
    obtain ⟨hy, hxs⟩ := List.nodup_cons.mp hxs
    refine ih (h.remove (hmem y (by simp)) (hnew y (by simp))) hxs ?_ ?_
    · intro x hx
      exact ⟨fun he => hy (he ▸ hx), hmem x (by simp [hx])⟩
    · intro x hx
      exact hnew x (by simp [hx])

theorem Mirrors.addAll {xs : List α} (h : Mirrors start L) (hxs : xs.Nodup)
    (hmem : ∀ x ∈ xs, x ∉ L.members) (hgone : ∀ x ∈ xs, L.removed x = 0) :
    Mirrors start (L.addAll xs) := by
  induction xs generalizing L with
  | nil => exact h
  | cons y xs ih =>
    obtain ⟨hy, hxs⟩ := List.nodup_cons.mp hxs
    refine ih (h.add (hmem y (by simp)) (hgone y (by simp))) hxs ?_ ?_
    · rintro x hx (he | hx')
      · exact hy (he ▸ hx)
      · exact hmem x (by simp [hx]) hx'
    · intro x hx
      exact hgone x (by simp [hx])

theorem not_mirrors_addAll {xs : List α} (h : Mirrors start L) (hx : x ∈ xs)
    (hmem : x ∈ L.members) : ¬ Mirrors start (L.addAll xs) := by
  intro h'
  have hlt := @addAll_added_lt α _ L x xs hx
  rcases (h.members x).mp hmem with ⟨hstart, _⟩ | hadded
  · exact h'.added_new x (by omega) hstart
  · have := h'.added_once x
    omega

end

end Ledger
