import Mathlib.Data.List.Basic

/-!
# JsWaku.Lib.Cursor

A list of named entries that is read page by page, while more entries come in. The reader keeps the
name of the last entry it has read.

* `Behind`  — the entries behind a name.
* `Reading` — what has been read and what is left to read, between the list at the start and the
  list as it is now.
* `Reading.step` — entries may come in anywhere between two pages.
* `Behind.ahead`, `Behind.later` — where they all come in ahead of the first entry, or at the end.
* `Sifted`  — where the names are in order, and entries may go as well as come.
-/

namespace Cursor

variable {κ α : Type}

inductive Behind (l : List (κ × α)) : Option κ → List (κ × α) → Prop where
  | start : Behind l none l
  | past (before : List (κ × α)) {e : κ × α} {rest : List (κ × α)} :
      l = before ++ e :: rest → Behind l (some e.1) rest

structure Reading (start l got rest : List (κ × α)) : Prop where
  old : start.Sublist (got ++ rest)
  now : (got ++ rest).Sublist l

variable {start l l' got rest page new : List (κ × α)} {cursor : Option κ} {e : κ × α} {n : Nat}

theorem reading_start (l : List (κ × α)) : Reading l l [] l := ⟨.refl _, .refl _⟩

theorem Behind.suffix (h : Behind l cursor rest) : rest <:+ l := by
  cases h with
  | start => exact List.suffix_refl l
  | past before heq =>
    rw [heq]
    exact (List.suffix_cons _ rest).trans (List.suffix_append _ _)

theorem Behind.inv {name : κ} (h : Behind l (some name) rest) :
    ∃ before e, l = before ++ e :: rest ∧ e.1 = name := by
  cases h with
  | past before heq => exact ⟨before, _, heq, rfl⟩

/-- The last entry of a page, and what is behind it. -/
theorem split_page (h : rest.take n = page ++ [e]) : rest = page ++ e :: rest.drop n := by
  conv_lhs => rw [← List.take_append_drop n rest, h, List.append_assoc]
  rfl

theorem Reading.step (h : Reading start l got rest) (hgrows : l.Sublist l')
    (hpage : rest.take n = page ++ [e]) :
    ∃ rest', Behind l' (some e.1) rest' ∧ Reading start l' (got ++ rest.take n) rest' := by
  have hnow := h.now.trans hgrows
  rw [split_page hpage, ← List.append_assoc, List.append_sublist_iff] at hnow
  obtain ⟨before, after, rfl, hbefore, hafter⟩ := hnow
  obtain ⟨upto, since, rfl, hin, hsince⟩ := List.cons_sublist_iff.mp hafter
  obtain ⟨between, more, rfl⟩ := List.append_of_mem hin
  refine ⟨more ++ since, .past (before ++ between) (by simp), ?_, ?_⟩
  · refine h.old.trans ?_
    conv_lhs => rw [← List.take_append_drop n rest, ← List.append_assoc]
    exact List.Sublist.append (.refl _) (hsince.trans (List.sublist_append_right more since))
  · rw [hpage]
    have hmore : (got ++ page ++ e :: (more ++ since)).Sublist
        (before ++ between ++ e :: (more ++ since)) :=
      (hbefore.trans (List.sublist_append_left before between)).append (.refl _)
    simpa using hmore

theorem behind_page (h : rest <:+ l) (hpage : rest.take n = page ++ [e]) :
    Behind l (some e.1) (rest.drop n) := by
  obtain ⟨before, rfl⟩ := h
  refine .past (before ++ page) ?_
  conv_lhs => rw [split_page hpage, ← List.append_assoc]

theorem Behind.ahead {name : κ} (h : Behind l (some name) rest) :
    Behind (new ++ l) (some name) rest := by
  cases h with
  | past before heq => exact .past (new ++ before) (by rw [heq, List.append_assoc])

theorem Behind.later {name : κ} (h : Behind l (some name) rest) :
    Behind (l ++ new) (some name) (rest ++ new) := by
  cases h with
  | past before heq => exact .past before (by rw [heq, List.append_assoc]; rfl)

/-! ## Entries that come and go -/

section

variable {lt : κ → κ → Prop} {lists : Nat → List (κ × α)} {k : Nat} {rest' : List (κ × α)}

structure Sifted (lt : κ → κ → Prop) (lists : Nat → List (κ × α)) (k : Nat)
    (got rest : List (κ × α)) : Prop where
  sorted : got.Pairwise fun e e' => lt e.1 e'.1
  ahead : ∀ g ∈ got, ∀ x ∈ rest, lt g.1 x.1
  seen : ∀ g ∈ got, ∃ j < k, g ∈ lists j
  stays : ∀ x, (∀ j ≤ k, x ∈ lists j) → x ∈ got ∨ x ∈ rest

theorem sifted_start (lt : κ → κ → Prop) (lists : Nat → List (κ × α)) :
    Sifted lt lists 0 [] (lists 0) where
  sorted := .nil
  ahead := List.forall_mem_nil _
  seen := List.forall_mem_nil _
  stays _ h := .inr (h 0 (Nat.le_refl 0))

theorem Sifted.step (htrans : ∀ {a b c}, lt a b → lt b c → lt a c) (hirrefl : ∀ a, ¬ lt a a)
    (hsorted : ∀ k, (lists k).Pairwise fun e e' => lt e.1 e'.1) (hsuffix : rest <:+ lists k)
    (hpage : rest.take n = page ++ [e]) (hbehind : Behind (lists (k + 1)) (some e.1) rest')
    (h : Sifted lt lists k got rest) : Sifted lt lists (k + 1) (got ++ rest.take n) rest' := by
  have hrest := (hsorted k).sublist hsuffix.sublist
  have hsplit := hrest
  rw [split_page hpage, List.pairwise_append, List.pairwise_cons] at hsplit
  obtain ⟨_, ⟨hbeyond, _⟩, hupto⟩ := hsplit
  have hnext := hsorted (k + 1)
  obtain ⟨before, e', heq, hname⟩ := hbehind.inv
  rw [heq, List.pairwise_append, List.pairwise_cons] at hnext
  obtain ⟨_, ⟨hafter, _⟩, hbefore⟩ := hnext
  -- Nothing that was read goes beyond the last name, and all that is left does.
  have hread : ∀ g ∈ got ++ rest.take n, g.1 = e.1 ∨ lt g.1 e.1 := by
    intro g hg
    rcases List.mem_append.mp hg with hg | hg
    · refine .inr (h.ahead g hg e (List.mem_of_mem_take (i := n) ?_))
      rw [hpage]
      exact List.mem_append_right _ (List.mem_singleton_self e)
    · rw [hpage, List.mem_append, List.mem_singleton] at hg
      rcases hg with hg | rfl
      · exact .inr (hupto g hg e List.mem_cons_self)
      · exact .inl rfl
  refine ⟨?_, fun g hg x hx => ?_, fun g hg => ?_, fun x hx => ?_⟩
  · refine List.pairwise_append.mpr ⟨h.sorted, hrest.sublist (List.take_sublist n rest), ?_⟩
    intro g hg x hx
    exact h.ahead g hg x (List.mem_of_mem_take hx)
  · have hlt := hafter x hx
    rw [hname] at hlt
    rcases hread g hg with hg | hg
    · rwa [hg]
    · exact htrans hg hlt
  · rcases List.mem_append.mp hg with hg | hg
    · obtain ⟨j, hj, hmem⟩ := h.seen g hg
      exact ⟨j, Nat.lt_succ_of_lt hj, hmem⟩
    · exact ⟨k, Nat.lt_succ_self k, hsuffix.subset (List.mem_of_mem_take hg)⟩
  · rcases h.stays x fun j hj => hx j (Nat.le_succ_of_le hj) with hgot | hin
    · exact .inl (List.mem_append_left _ hgot)
    · rw [← List.take_append_drop n rest, List.mem_append] at hin
      rcases hin with hin | hin
      · exact .inl (List.mem_append_right _ hin)
      · have hlt := hbeyond x hin
        have hmem := hx (k + 1) (Nat.le_refl _)
        rw [heq, List.mem_append, List.mem_cons] at hmem
        rcases hmem with hmem | rfl | hmem
        · have hback := hbefore x hmem e' List.mem_cons_self
          rw [hname] at hback
          exact absurd (htrans hlt hback) (hirrefl e.1)
        · rw [hname] at hlt
          exact absurd hlt (hirrefl e.1)
        · exact .inr hmem

/-- Once all is read: nothing twice, nothing that never was there, all that was there throughout. -/
theorem Sifted.done (hsorted : (lists k).Pairwise fun e e' => lt e.1 e'.1)
    (hsuffix : rest <:+ lists k) (h : Sifted lt lists k got rest) :
    ((got ++ rest).Pairwise fun e e' => lt e.1 e'.1) ∧
      (∀ g ∈ got ++ rest, ∃ j ≤ k, g ∈ lists j) ∧
      ∀ x, (∀ j ≤ k, x ∈ lists j) → x ∈ got ++ rest := by
  refine ⟨?_, fun g hg => ?_, fun x hx => List.mem_append.mpr (h.stays x hx)⟩
  · exact List.pairwise_append.mpr ⟨h.sorted, hsorted.sublist hsuffix.sublist, h.ahead⟩
  · rcases List.mem_append.mp hg with hg | hg
    · obtain ⟨j, hj, hmem⟩ := h.seen g hg
      exact ⟨j, Nat.le_of_lt hj, hmem⟩
    · exact ⟨k, Nat.le_refl k, hsuffix.subset hg⟩

end

end Cursor
