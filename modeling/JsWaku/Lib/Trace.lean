import Mathlib.Data.List.Induction

/-!
# JsWaku.Lib.Trace

Histories of a machine that takes one event after the other.

* `after`      — the state at the end of a history.
* `Always`     — a property holds in every state on the way, the first and the last included.
* `Throughout` — a condition holds of every event in the state it comes in.
* `always_iff_throughout` — a property that one event keeps exactly under a condition.
* `always_iff_throughout_of_invariant` — the same where an invariant has to carry the property.
* `after_invariant` — an invariant between the history so far and the state.
* `after_filterMap` — a relation between two machines, one of which is spared some of the events.
* `standing_after` — membership that events edit is what was put in and not taken out since.
-/

namespace Trace

variable {σ ε : Type} (step : σ → ε → σ)

def after (s : σ) (events : List ε) : σ := events.foldl step s

def Always (P : σ → Prop) : σ → List ε → Prop
  | s, [] => P s
  | s, e :: es => P s ∧ Always P (step s e) es

def Throughout (Q : σ → ε → Prop) : σ → List ε → Prop
  | _, [] => True
  | s, e :: es => Q s e ∧ Throughout Q (step s e) es

variable {step} {P : σ → Prop} {Q : σ → ε → Prop} {s : σ} {events : List ε}

theorem Always.head (h : Always step P s events) : P s := by
  cases events with
  | nil => exact h
  | cons e es => exact h.1

theorem Always.last (h : Always step P s events) : P (after step s events) := by
  induction events generalizing s with
  | nil => exact h
  | cons e es ih => exact ih h.2

theorem Always.mono {P' : σ → Prop} (h : Always step P s events) (himp : ∀ s, P s → P' s) :
    Always step P' s events := by
  induction events generalizing s with
  | nil => exact himp s h
  | cons e es ih => exact ⟨himp s h.1, ih h.2⟩

theorem Always.and {P' : σ → Prop} (h : Always step P s events) (h' : Always step P' s events) :
    Always step (fun s => P s ∧ P' s) s events := by
  induction events generalizing s with
  | nil => exact ⟨h, h'⟩
  | cons e es ih => exact ⟨⟨h.1, h'.1⟩, ih h.2 h'.2⟩

theorem always_of_throughout (hstep : ∀ s e, P s → Q s e → P (step s e)) (hs : P s)
    (h : Throughout step Q s events) : Always step P s events := by
  induction events generalizing s with
  | nil => exact hs
  | cons e es ih => exact ⟨hs, ih (hstep s e hs h.1) h.2⟩

/-- What every event keeps. -/
theorem always_of_keeps (hstep : ∀ s e, P s → P (step s e)) (hs : P s) (events : List ε) :
    Always step P s events := by
  induction events generalizing s with
  | nil => exact hs
  | cons e es ih => exact ⟨hs, ih (hstep s e hs)⟩

theorem throughout_of_always (hstep : ∀ s e, P s → P (step s e) → Q s e)
    (h : Always step P s events) : Throughout step Q s events := by
  induction events generalizing s with
  | nil => trivial
  | cons e es ih => exact ⟨hstep s e h.1 h.2.head, ih h.2⟩

theorem always_iff_throughout (hstep : ∀ s e, P s → (P (step s e) ↔ Q s e)) (hs : P s) :
    Always step P s events ↔ Throughout step Q s events :=
  ⟨throughout_of_always fun s e hs => (hstep s e hs).mp,
    always_of_throughout (fun s e hs => (hstep s e hs).mpr) hs⟩

/-- An invariant that implies the property is kept under the condition, and the property lost at
once without it. -/
theorem always_iff_throughout_of_invariant {I : σ → Prop} (hI : ∀ s, I s → P s)
    (hkeep : ∀ s e, I s → Q s e → I (step s e)) (hlose : ∀ s e, I s → ¬ Q s e → ¬ P (step s e))
    (hs : I s) : Always step P s events ↔ Throughout step Q s events := by
  constructor
  · intro h
    induction events generalizing s with
    | nil => trivial
    | cons e es ih =>
      have hQ : Q s e := by
        by_contra hno
        exact hlose s e hs hno h.2.head
      exact ⟨hQ, ih (hkeep s e hs hQ) h.2⟩
  · intro h
    exact (always_of_throughout hkeep hs h).mono hI

theorem always_iff_front : Always step P s events ↔
    ∀ front, front <+: events → P (after step s front) := by
  constructor
  · rintro h front ⟨rest, rfl⟩
    induction front generalizing s with
    | nil => exact h.head
    | cons e front ih => exact ih h.2
  · intro h
    induction events generalizing s with
    | nil => exact h [] List.nil_prefix
    | cons e es ih =>
      refine ⟨h [] List.nil_prefix, ih fun front hfront => ?_⟩
      exact h (e :: front) (List.cons_prefix_cons.mpr ⟨rfl, hfront⟩)

/-- What holds of the first state, and of every state an event leads to if it held before. -/
theorem after_invariant {I : List ε → σ → Prop} (hs : I [] s)
    (hstep : ∀ es s e, I es s → I (es ++ [e]) (step s e)) (events : List ε) :
    I events (after step s events) := by
  induction events using List.reverseRecOn with
  | nil => exact hs
  | append_singleton es e ih =>
    rw [after, List.foldl_append]
    exact hstep es _ e ih

/-- A machine that is spared some events and given others in a different form: it stays related to
the one that goes through all of them, if events it is spared do not matter to the relation. -/
theorem after_filterMap {R : σ → σ → Prop} {f : ε → Option ε}
    (hsome : ∀ s s' e e', R s s' → f e = some e' → R (step s e) (step s' e'))
    (hnone : ∀ s s' e, R s s' → f e = none → R (step s e) s') {s s' : σ} (h : R s s')
    (events : List ε) : R (after step s events) (after step s' (events.filterMap f)) := by
  induction events generalizing s s' with
  | nil => exact h
  | cons e es ih =>
    cases hf : f e with
    | some e' =>
      rw [List.filterMap_cons_some hf]
      exact ih (hsome s s' e e' h hf)
    | none =>
      rw [List.filterMap_cons_none hf]
      exact ih (hnone s s' e h hf)

/-! ## Put in and not taken out since -/

section

variable {α : Type} {puts takes : ε → α → Prop} {a : α}

def Standing (puts takes : ε → α → Prop) (history : List ε) (a : α) : Prop :=
  ∃ before e since, history = before ++ e :: since ∧ puts e a ∧ ∀ e' ∈ since, ¬ takes e' a

theorem not_standing_nil : ¬ Standing puts takes [] a := by
  rintro ⟨before, e, since, h, _⟩
  cases before <;> cases h

theorem standing_append (history : List ε) (e : ε) : Standing puts takes (history ++ [e]) a ↔
    puts e a ∨ Standing puts takes history a ∧ ¬ takes e a := by
  constructor
  · rintro ⟨before, e', since, h, hputs, hsince⟩
    rcases List.eq_nil_or_concat since with rfl | ⟨since, last, rfl⟩
    · obtain ⟨_, he⟩ := List.append_inj' h rfl
      cases he
      exact .inl hputs
    · rw [List.concat_eq_append, ← List.cons_append, ← List.append_assoc] at h
      obtain ⟨rfl, he⟩ := List.append_inj' h rfl
      cases he
      exact .inr ⟨⟨before, e', since, rfl, hputs, fun e'' hmem => hsince e'' (by simp [hmem])⟩,
        hsince e (by simp)⟩
  · rintro (hputs | ⟨⟨before, e', since, rfl, hputs, hsince⟩, htakes⟩)
    · exact ⟨history, e, [], rfl, hputs, fun _ hmem => absurd hmem List.not_mem_nil⟩
    · refine ⟨before, e', since ++ [e], by simp, hputs, fun e'' hmem => ?_⟩
      rcases List.mem_append.mp hmem with hmem | hmem
      · exact hsince e'' hmem
      · rw [List.mem_singleton.mp hmem]
        exact htakes

/-- What a stretch of history leaves standing, it put in itself or did not take out. -/
theorem standing_append_all (history events : List ε) : Standing puts takes (history ++ events) a ↔
    Standing puts takes events a ∨ Standing puts takes history a ∧ ∀ e ∈ events, ¬ takes e a := by
  induction events using List.reverseRecOn with
  | nil => simp [not_standing_nil]
  | append_singleton events e ih =>
    rw [← List.append_assoc, standing_append, standing_append, ih]
    simp only [List.mem_append, List.mem_singleton, or_imp, forall_and, forall_eq]
    tauto

theorem not_standing (h : ∀ e ∈ events, ¬ puts e a) : ¬ Standing puts takes events a := by
  rintro ⟨before, e, since, rfl, hputs, _⟩
  exact h e (by simp) hputs

/-- Where nothing is taken out. -/
theorem standing_iff_puts (h : ∀ e ∈ events, ¬ takes e a) :
    Standing puts takes events a ↔ ∃ e ∈ events, puts e a := by
  constructor
  · rintro ⟨before, e, since, rfl, hputs, _⟩
    exact ⟨e, by simp, hputs⟩
  · rintro ⟨e, he, hputs⟩
    obtain ⟨before, since, rfl⟩ := List.append_of_mem he
    exact ⟨before, e, since, rfl, hputs, fun e' he' => h e' (by simp [he'])⟩

/-- A membership that every event changes by what it puts in and takes out. -/
theorem standing_after {member : σ → α → Prop} {history : List ε} (hs : ∀ a, ¬ member s a)
    (hstep : ∀ before e since, history = before ++ e :: since → ∀ a,
      member (step (after step s before) e) a ↔
        puts e a ∨ member (after step s before) a ∧ ¬ takes e a) (a : α) :
    member (after step s history) a ↔ Standing puts takes history a := by
  induction history using List.reverseRecOn with
  | nil => exact ⟨fun h => absurd h (hs a), fun h => absurd h not_standing_nil⟩
  | append_singleton history e ih =>
    have hlast := hstep history e [] rfl a
    have hbefore := ih fun before e' since h => hstep before e' (since ++ [e]) (by simp [h])
    rw [standing_append, ← hbefore, ← hlast, after, List.foldl_append]
    rfl

end

end Trace
