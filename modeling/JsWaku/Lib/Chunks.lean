import Mathlib.Data.List.Basic

/-!
# JsWaku.Lib.Chunks

A list read `n` elements at a time. `chunk n k l` is the `k`-th reading: full before number
`l.length / n`, and the rest of the list there.
-/

namespace Chunks

variable {α : Type} {n k : Nat} {l : List α}

def chunk (n k : Nat) (l : List α) : List α := (l.drop (k * n)).take n

theorem chunk_length : (chunk n k l).length = min n (l.length - k * n) := by
  simp [chunk]

theorem succ_mul_le (hn : 0 < n) (h : k < l.length / n) : (k + 1) * n ≤ l.length :=
  (Nat.le_div_iff_mul_le hn).mp h

theorem chunk_length_full (hn : 0 < n) (h : k < l.length / n) : (chunk n k l).length = n := by
  have hle := succ_mul_le hn h
  rw [Nat.succ_mul] at hle
  rw [chunk_length]
  omega

theorem chunk_length_last (hn : 0 < n) : (chunk n (l.length / n) l).length = l.length % n := by
  have hdiv := Nat.div_add_mod' l.length n
  have hlt := Nat.mod_lt l.length hn
  rw [chunk_length]
  omega

/-- The first `k` readings are the first `k * n` elements. -/
theorem flatMap_chunk : (List.range k).flatMap (chunk n · l) = l.take (k * n) := by
  induction k with
  | zero => simp
  | succ k ih =>
    rw [List.range_succ, List.flatMap_append, ih, List.flatMap_singleton, chunk, Nat.succ_mul,
      List.take_add]

theorem flatMap_chunks (hn : 0 < n) : (List.range (l.length / n + 1)).flatMap (chunk n · l) = l := by
  rw [flatMap_chunk, List.take_of_length_le]
  rw [Nat.succ_mul]
  have hdiv := Nat.div_add_mod' l.length n
  have hlt := Nat.mod_lt l.length hn
  omega

end Chunks
