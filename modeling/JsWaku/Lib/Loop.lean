import Mathlib.Data.List.Basic

/-!
# JsWaku.Lib.Loop

A `while (true)` loop whose body goes round again, returns, or throws.

* `Turns step n s s'` — `n` rounds lead from `s` to `s'`.
* `Ends step s r`     — the loop entered at `s` ends with `r`, a final state or what was thrown.
* `run`               — fuel-bounded interpreter; `ends_iff_run` ties it to `Ends`.
* `ends_iff_bounded`  — a loop that does not end goes round for ever.
* `ends_congr`        — one body for another.

A loop whose states are known in advance is dealt with by `Turns.of_trace`, one known only by an
invariant by `Turns.invariant` and `Ends.split`.
-/

namespace WhileLoop

inductive Turn (σ : Type) where
  | again (s : σ)
  | stop (s : σ)

variable {σ ε : Type} {step : σ → Except ε (Turn σ)}

inductive Turns (step : σ → Except ε (Turn σ)) : Nat → σ → σ → Prop where
  | refl {s : σ} : Turns step 0 s s
  | cons {n : Nat} {s s' s'' : σ} : step s = .ok (.again s') → Turns step n s' s'' →
      Turns step (n + 1) s s''

inductive Ends (step : σ → Except ε (Turn σ)) : σ → Except ε σ → Prop where
  | stop {s s' : σ} : step s = .ok (.stop s') → Ends step s (.ok s')
  | throws {s : σ} {e : ε} : step s = .error e → Ends step s (.error e)
  | again {s s' : σ} {r : Except ε σ} : step s = .ok (.again s') → Ends step s' r → Ends step s r

/-- `none` means the fuel ran out. -/
def run (step : σ → Except ε (Turn σ)) : Nat → σ → Option (Except ε σ)
  | 0, _ => none
  | fuel + 1, s =>
    match step s with
    | .error e => some (.error e)
    | .ok (.stop s') => some (.ok s')
    | .ok (.again s') => run step fuel s'

theorem Ends.of_run {fuel : Nat} {s : σ} {r : Except ε σ} (h : run step fuel s = some r) :
    Ends step s r := by
  induction fuel generalizing s with
  | zero => cases h
  | succ fuel ih =>
    rw [run] at h
    split at h
    · cases h; exact .throws (by assumption)
    · cases h; exact .stop (by assumption)
    · exact .again (by assumption) (ih h)

theorem Ends.run {s : σ} {r : Except ε σ} (h : Ends step s r) :
    ∃ fuel, run step fuel s = some r := by
  induction h with
  | stop hs => exact ⟨1, by simp [WhileLoop.run, hs]⟩
  | throws hs => exact ⟨1, by simp [WhileLoop.run, hs]⟩
  | again hs _ ih =>
    obtain ⟨fuel, hf⟩ := ih
    exact ⟨fuel + 1, by rw [WhileLoop.run, hs]; exact hf⟩

theorem ends_iff_run {s : σ} {r : Except ε σ} :
    Ends step s r ↔ ∃ fuel, run step fuel s = some r :=
  ⟨Ends.run, fun ⟨_, h⟩ => .of_run h⟩

/-- A loop ends in one way at most. -/
theorem Ends.deterministic {s : σ} {r r' : Except ε σ} (h : Ends step s r)
    (h' : Ends step s r') : r = r' := by
  induction h with
  | stop hs =>
    cases h' with
    | stop hs' => rw [hs] at hs'; cases hs'; rfl
    | throws hs' => rw [hs] at hs'; cases hs'
    | again hs' _ => rw [hs] at hs'; cases hs'
  | throws hs =>
    cases h' with
    | stop hs' => rw [hs] at hs'; cases hs'
    | throws hs' => rw [hs] at hs'; cases hs'; rfl
    | again hs' _ => rw [hs] at hs'; cases hs'
  | again hs _ ih =>
    cases h' with
    | stop hs' => rw [hs] at hs'; cases hs'
    | throws hs' => rw [hs] at hs'; cases hs'
    | again hs' h' => rw [hs] at hs'; cases hs'; exact ih h'

/-! ## Rounds -/

theorem Turns.ends {n : Nat} {s s' : σ} {r : Except ε σ} (h : Turns step n s s')
    (he : Ends step s' r) : Ends step s r := by
  induction h with
  | refl => exact he
  | cons hs _ ih => exact .again hs (ih he)

/-- What comes after some rounds is the rest of the loop. -/
theorem Turns.rest {n : Nat} {s s' : σ} {r : Except ε σ} (h : Turns step n s s')
    (he : Ends step s r) : Ends step s' r := by
  induction h with
  | refl => exact he
  | cons hs _ ih =>
    refine ih ?_
    cases he with
    | stop hs' => rw [hs] at hs'; cases hs'
    | throws hs' => rw [hs] at hs'; cases hs'
    | again hs' he => rw [hs] at hs'; cases hs'; exact he

theorem Turns.snoc {n : Nat} {s s' s'' : σ} (h : Turns step n s s')
    (hs : step s' = .ok (.again s'')) : Turns step (n + 1) s s'' := by
  induction h with
  | refl => exact .cons hs .refl
  | cons hs' _ ih => exact .cons hs' (ih hs)

/-- The states of the loop are the values of `trace`. -/
theorem Turns.of_trace {trace : Nat → σ} {n : Nat}
    (h : ∀ k < n, step (trace k) = .ok (.again (trace (k + 1)))) :
    Turns step n (trace 0) (trace n) := by
  induction n with
  | zero => exact .refl
  | succ n ih => exact (ih fun k hk => h k (by omega)).snoc (h n (by omega))

/-- A loop that ends goes round some number of times and then returns or throws. -/
theorem Ends.split {s : σ} {r : Except ε σ} (h : Ends step s r) :
    ∃ n s', Turns step n s s' ∧
      ((∃ s'', step s' = .ok (.stop s'') ∧ r = .ok s'') ∨
        ∃ e, step s' = .error e ∧ r = .error e) := by
  induction h with
  | stop hs => exact ⟨0, _, .refl, .inl ⟨_, hs, rfl⟩⟩
  | throws hs => exact ⟨0, _, .refl, .inr ⟨_, hs, rfl⟩⟩
  | again hs _ ih =>
    obtain ⟨n, s', ht, hend⟩ := ih
    exact ⟨n + 1, s', .cons hs ht, hend⟩

/-- A loop ends exactly if it does not go round any number of times. -/
theorem ends_iff_bounded {s : σ} :
    (∃ r, Ends step s r) ↔ ∃ n, ∀ s', ¬ Turns step n s s' := by
  constructor
  · rintro ⟨r, h⟩
    induction h with
    | stop hs =>
      refine ⟨1, ?_⟩
      rintro _ (_ | ⟨hs', _⟩)
      rw [hs] at hs'
      cases hs'
    | throws hs =>
      refine ⟨1, ?_⟩
      rintro _ (_ | ⟨hs', _⟩)
      rw [hs] at hs'
      cases hs'
    | again hs _ ih =>
      obtain ⟨n, hn⟩ := ih
      refine ⟨n + 1, ?_⟩
      rintro s'' (_ | ⟨hs', hturns⟩)
      rw [hs] at hs'
      cases hs'
      exact hn s'' hturns
  · rintro ⟨n, hn⟩
    induction n generalizing s with
    | zero => exact absurd .refl (hn s)
    | succ n ih =>
      cases hs : step s with
      | error e => exact ⟨_, .throws hs⟩
      | ok turn =>
        cases turn with
        | stop s' => exact ⟨_, .stop hs⟩
        | again s' =>
          obtain ⟨r, hr⟩ := ih fun s'' hturns => hn s'' (.cons hs hturns)
          exact ⟨r, .again hs hr⟩

/-- What one round keeps, with the number of the round, every number of them keeps. -/
theorem Turns.invariant {I : Nat → σ → Prop} {k n : Nat} {s s' : σ}
    (hstep : ∀ k s s', I k s → step s = .ok (.again s') → I (k + 1) s')
    (h : Turns step n s s') (hI : I k s) : I (k + n) s' := by
  induction h generalizing k with
  | refl => exact hI
  | cons hs _ ih =>
    have := ih (hstep _ _ _ hI hs)
    rwa [Nat.add_assoc, Nat.add_comm 1] at this

/-- Two loops whose bodies do the same wherever an invariant holds end in the same ways. -/
theorem ends_congr {step' : σ → Except ε (Turn σ)} {I : σ → Prop}
    (heq : ∀ s, I s → step s = step' s)
    (hkeep : ∀ s s', I s → step s = .ok (.again s') → I s') {s : σ} {r : Except ε σ} (hI : I s) :
    Ends step s r ↔ Ends step' s r := by
  constructor
  · intro h
    induction h with
    | stop hs => exact .stop (by rw [← heq _ hI]; exact hs)
    | throws hs => exact .throws (by rw [← heq _ hI]; exact hs)
    | again hs _ ih => exact .again (by rw [← heq _ hI]; exact hs) (ih (hkeep _ _ hI hs))
  · intro h
    induction h with
    | stop hs => exact .stop (by rw [heq _ hI]; exact hs)
    | throws hs => exact .throws (by rw [heq _ hI]; exact hs)
    | again hs _ ih =>
      rw [← heq _ hI] at hs
      exact .again hs (ih (hkeep _ _ hI hs))

end WhileLoop
