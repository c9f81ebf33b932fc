import Mathlib.Data.Set.Finite.Lattice
import Mathlib.Order.Preorder.Finite

/-!
# JsWaku.Lib.Walk

Walks by a partial function.

* `walk next a k`     — the place reached from `a` after `k` steps, if there is one.
* `Revisits next a`   — the walk comes back to a place where it has been.
* `walk_forever_iff`  — among finitely many places, a walk goes on for ever exactly if it does.
-/

namespace Walk

variable {α : Type} {next : α → Option α} {a x : α} {i j k : Nat}

def walk (next : α → Option α) (a : α) : Nat → Option α
  | 0 => some a
  | k + 1 => (walk next a k).bind next

def Revisits (next : α → Option α) (a : α) : Prop :=
  ∃ i j x, i < j ∧ walk next a i = some x ∧ walk next a j = some x

theorem walk_add (next : α → Option α) (a : α) (i k : Nat) :
    walk next a (i + k) = (walk next a i).bind fun x => walk next x k := by
  induction k with
  | zero => cases walk next a i <;> simp [walk]
  | succ k ih =>
    rw [← Nat.add_assoc, walk, ih]
    cases walk next a i with
    | none => rfl
    | some x => rfl

theorem walk_isSome_of_le (h : (walk next a k).isSome) (hi : i ≤ k) : (walk next a i).isSome := by
  obtain ⟨d, rfl⟩ := Nat.exists_eq_add_of_le hi
  rw [walk_add] at h
  cases hwalk : walk next a i with
  | none => simp [hwalk] at h
  | some x => rfl

/-- A round trip can be made any number of times. -/
theorem walk_rounds (hi : walk next a i = some x) (hj : walk next a (i + k) = some x) (n : Nat) :
    walk next a (i + n * k) = some x := by
  have hround : walk next x k = some x := by
    rw [walk_add, hi] at hj
    exact hj
  induction n with
  | zero => simpa using hi
  | succ n ih =>
    rw [Nat.succ_mul, ← Nat.add_assoc, walk_add, ih]
    exact hround

theorem walk_forever_of_revisits (h : Revisits next a) (k : Nat) : (walk next a k).isSome := by
  obtain ⟨i, j, x, hij, hi, hj⟩ := h
  obtain ⟨d, rfl⟩ := Nat.exists_eq_add_of_le (Nat.le_of_lt hij)
  have hfar := walk_rounds hi hj k
  refine walk_isSome_of_le (by rw [hfar]; rfl) (?_ : k ≤ i + k * d)
  have hmul : k * 1 ≤ k * d := Nat.mul_le_mul_left k (by omega)
  omega

theorem walk_forever_iff (hfinite : {x | ∃ y, next y = some x}.Finite) :
    (∀ k, (walk next a k).isSome) ↔ Revisits next a := by
  refine ⟨fun h => ?_, walk_forever_of_revisits⟩
  have hplace : ∀ k, walk next a k ∈ some '' insert a {x | ∃ y, next y = some x} := by
    intro k
    obtain ⟨x, hx⟩ := Option.isSome_iff_exists.mp (h k)
    refine ⟨x, ?_, hx.symm⟩
    cases k with
    | zero =>
      cases hx
      exact Set.mem_insert _ _
    | succ k =>
      obtain ⟨y, _, hy⟩ := Option.bind_eq_some_iff.mp hx
      exact Set.mem_insert_of_mem _ ⟨y, hy⟩
  obtain ⟨i, j, hij, hsame⟩ :=
    ((hfinite.insert a).image some).exists_lt_map_eq_of_forall_mem hplace
  obtain ⟨x, hx⟩ := Option.isSome_iff_exists.mp (h i)
  exact ⟨i, j, x, hij, hx, hsame ▸ hx⟩

end Walk
