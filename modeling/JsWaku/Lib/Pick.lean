import Mathlib.Data.List.Nodup

/-!
# JsWaku.Lib.Pick

The first elements of a list in some order.

* `PickedFrom n xs l` — `l` begins some order of `xs`, and has `n` elements if there are as many.
-/

namespace Pick

structure PickedFrom {α : Type} (n : Nat) (xs l : List α) : Prop where
  picked : ∃ order : List α, order.Perm xs ∧ l = order.take n

variable {α : Type} {n : Nat} {xs l : List α}

theorem PickedFrom.length (h : PickedFrom n xs l) : l.length = min xs.length n := by
  obtain ⟨order, hperm, rfl⟩ := h.picked
  rw [List.length_take, hperm.length_eq, Nat.min_comm]

theorem PickedFrom.nodup (h : PickedFrom n xs l) (hxs : xs.Nodup) : l.Nodup := by
  obtain ⟨order, hperm, rfl⟩ := h.picked
  exact (hperm.nodup_iff.mpr hxs).sublist (List.take_sublist n order)

theorem PickedFrom.mem (h : PickedFrom n xs l) {a : α} (ha : a ∈ l) : a ∈ xs := by
  obtain ⟨order, hperm, rfl⟩ := h.picked
  exact hperm.mem_iff.mp (List.mem_of_mem_take ha)

/-- All of them, when there are no more than asked for. -/
theorem pickedFrom_all (hperm : l.Perm xs) (hn : xs.length ≤ n) : PickedFrom n xs l :=
  ⟨l, hperm, (List.take_of_length_le (hperm.length_eq ▸ hn)).symm⟩

end Pick
