import Mathlib.Data.List.Basic

/-!
# JsWaku.Lib.Gather

A scan over a stretch of a list. What it looks for it moves to the front of the list, up to a number
of times.

* `gather p steps i need` — the scan over the `steps` places from `i` on.
* `gather_append` — what was found stands in front, the last one first; the places before the
  stretch follow, then the stretch without what was found, then the rest.
* `gather_front` — all that was to be found in a first stretch stands first afterwards.
-/

namespace Gather

section

variable {α : Type}

/-- The element at `i` goes in front of all others. -/
def toFront (xs : List α) (i : Nat) : List α :=
  match xs[i]? with
  | none => xs
  | some a => a :: xs.eraseIdx i

def gather (p : α → Bool) : (steps i need : Nat) → List α → List α
  | 0, _, _, xs => xs
  | steps + 1, i, need, xs =>
    if need = 0 then xs
    else if (xs[i]?).any p then gather p steps (i + 1) (need - 1) (toFront xs i)
    else gather p steps (i + 1) need xs

/-- The first `n` elements that `p` holds of. -/
def found (p : α → Bool) (n : Nat) (xs : List α) : List α := (xs.filter p).take n

/-- The list without the first `n` elements that `p` holds of. -/
def spared (p : α → Bool) : Nat → List α → List α
  | 0, xs => xs
  | _ + 1, [] => []
  | n + 1, a :: xs => if p a then spared p n xs else a :: spared p (n + 1) xs

variable {p : α → Bool} {a : α} {xs pre mid post : List α} {n need : Nat}

theorem found_cons_pos (ha : p a = true) : found p (n + 1) (a :: xs) = a :: found p n xs := by
  simp [found, ha]

theorem found_cons_neg (ha : ¬ p a = true) : found p n (a :: xs) = found p n xs := by
  simp [found, ha]

theorem found_length : (found p n xs).length = min n (xs.countP p) := by
  rw [found, List.length_take, ← List.countP_eq_length_filter]

theorem of_mem_found (h : a ∈ found p n xs) : a ∈ xs ∧ p a = true :=
  List.mem_filter.mp (List.mem_of_mem_take h)

theorem found_all (h : xs.countP p ≤ n) : found p n xs = xs.filter p := by
  rw [found, List.take_of_length_le]
  rwa [← List.countP_eq_length_filter]

theorem spared_all (h : xs.countP p ≤ n) : spared p n xs = xs.filter (!p ·) := by
  induction xs generalizing n with
  | nil => cases n <;> rfl
  | cons a xs ih =>
    by_cases ha : p a = true
    · rw [List.countP_cons_of_pos ha] at h
      obtain ⟨m, rfl⟩ : ∃ m, n = m + 1 := ⟨n - 1, by omega⟩
      rw [spared, if_pos ha, ih (by omega)]
      simp [ha]
    · rw [List.countP_cons_of_neg ha] at h
      cases n with
      | zero =>
        have hxs := ih h
        rw [spared] at hxs ⊢
        rw [List.filter_cons_of_pos (by simpa using ha), ← hxs]
      | succ n =>
        rw [spared, if_neg ha, ih h, List.filter_cons_of_pos (by simpa using ha)]

theorem toFront_append : toFront (pre ++ a :: post) pre.length = a :: (pre ++ post) := by
  have hget : (pre ++ a :: post)[pre.length]? = some a := by simp
  simp only [toFront, hget]
  rw [List.eraseIdx_append_of_length_le (Nat.le_refl _), Nat.sub_self, List.eraseIdx_cons_zero]

@[simp] theorem gather_none (steps i : Nat) (xs : List α) : gather p steps i 0 xs = xs := by
  cases steps <;> rfl

theorem gather_append (p : α → Bool) (pre mid post : List α) (need : Nat) :
    gather p mid.length pre.length need (pre ++ (mid ++ post)) =
      (found p need mid).reverse ++ (pre ++ (spared p need mid ++ post)) := by
  induction mid generalizing pre need with
  | nil => cases need <;> rfl
  | cons a mid ih =>
    cases need with
    | zero => simp [found, spared]
    | succ need =>
      have hget : (pre ++ (a :: mid ++ post))[pre.length]? = some a := by simp
      rw [List.length_cons, gather, if_neg (Nat.succ_ne_zero need), hget, Option.any_some,
        Nat.add_sub_cancel]
      by_cases ha : p a = true
      · rw [if_pos ha, List.cons_append, toFront_append, found_cons_pos ha, spared, if_pos ha]
        -- The place scanned next is again the one behind what has been scanned.
        have h := ih (a :: pre) need
        simpa using h
      · rw [if_neg ha, found_cons_neg ha, spared, if_neg ha]
        have h := ih (pre ++ [a]) (need + 1)
        simpa using h

/-- A scan of the first places, all but the first, that finds everything there. -/
theorem gather_front (p : α → Bool) (xs post : List α) :
    ∃ outs, outs.Perm (xs.filter p) ∧ gather p (xs.length - 1) 1 (xs.countP p) (xs ++ post) =
      outs ++ (xs.filter (!p ·) ++ post) := by
  cases xs with
  | nil => exact ⟨[], List.Perm.refl _, rfl⟩
  | cons a mid =>
    have hcount : mid.countP p ≤ (a :: mid).countP p :=
      (List.sublist_cons_self a mid).countP_le
    have h := gather_append p [a] mid post ((a :: mid).countP p)
    rw [found_all hcount, spared_all hcount] at h
    by_cases ha : p a = true
    · refine ⟨(mid.filter p).reverse ++ [a], ?_, ?_⟩
      · rw [List.filter_cons_of_pos ha]
        exact (List.perm_append_singleton a _).trans ((List.reverse_perm _).cons a)
      · rw [List.filter_cons_of_neg (by simpa using ha), List.append_assoc]
        exact h
    · refine ⟨(mid.filter p).reverse, ?_, ?_⟩
      · rw [List.filter_cons_of_neg ha]
        exact List.reverse_perm _
      · rw [List.filter_cons_of_pos (by simpa using ha), List.cons_append]
        exact h

end

end Gather
