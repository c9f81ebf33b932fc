import JsWaku.Relay.Delivery
import JsWaku.Relay.LiveObservers

/-!
# JsWaku.Relay.Reentry

Callbacks that add and delete observers while a message is handed out.

* `Dispatches` — the `then` of a decoded message, whose callbacks may do anything to the observers.
* `dispatch_reentrant` — nobody is called who is not registered at that time, and nobody is left out,
  or called twice, who stays registered.
* `dispatch_plain` — where the callbacks leave the observers alone it is `notify`.
-/

namespace JsWaku
namespace Relay

open Js Trace WhileLoop

/-- What a callback does when it is called. -/
structure Reaction (κ : Type) where
  edits : List (Edit κ)
  throws : Bool

/-- The calls made with a message so far, each with what the callback did to the observers. -/
structure Dispatch (κ : Type) where
  observers : LiveObservers κ
  log : List ((String × κ) × List (Edit κ))

section

variable {κ : Type}

def Dispatch.called (d : Dispatch κ) : List (String × κ) := d.log.map Prod.fst

def Dispatch.made (d : Dispatch κ) : List (Edit κ) := d.log.flatMap Prod.snd

/-- The callbacks that have been called under a key. -/
def Dispatch.told (key : String) (d : Dispatch κ) : List κ :=
  d.called.filterMap fun registration => if registration.1 = key then some registration.2 else none

theorem told_append (d : Dispatch κ) (observers : LiveObservers κ) (registration : String × κ)
    (edits : List (Edit κ)) (key : String) :
    Dispatch.told key ⟨observers, d.log ++ [(registration, edits)]⟩ =
      d.told key ++ if registration.1 = key then [registration.2] else [] := by
  unfold Dispatch.told Dispatch.called
  rw [List.map_append, List.filterMap_append]
  split <;> simp [*]

/-- Each call is one of a registration that stands by then and wants the message. -/
inductive Entitled (history : List (Edit κ)) (contentTopic : Option String) :
    List ((String × κ) × List (Edit κ)) → Prop where
  | nil : Entitled history contentTopic []
  | call {log registration edits} : Entitled history contentTopic log →
      (registration.1 = "" ∨ contentTopic = some registration.1) →
      Standing Edit.puts Edit.takes (history ++ log.flatMap Prod.snd) registration →
      Entitled history contentTopic (log ++ [(registration, edits)])

theorem Entitled.split {history : List (Edit κ)} {contentTopic : Option String}
    {log rest : List ((String × κ) × List (Edit κ))} {call : (String × κ) × List (Edit κ)}
    (h : Entitled history contentTopic (log ++ call :: rest)) :
    Standing Edit.puts Edit.takes (history ++ log.flatMap Prod.snd) call.1 := by
  generalize hlog : log ++ call :: rest = log' at h
  induction h generalizing rest with
  | nil => cases log <;> cases hlog
  | call _ _ hstanding ih =>
    rcases List.eq_nil_or_concat rest with rfl | ⟨rest, last, rfl⟩
    · obtain ⟨rfl, hcall⟩ := List.append_inj' hlog rfl
      cases hcall
      exact hstanding
    · rw [List.concat_eq_append, ← List.cons_append, ← List.append_assoc] at hlog
      exact ih (List.append_inj' hlog rfl).1

variable [DecidableEq κ]

/-- `react` is what the callbacks do: it may depend on how many have been called. -/
def Dispatch.call (react : Nat → κ → Reaction κ) (key : String) (callback : κ) (d : Dispatch κ) :
    Except (Dispatch κ) (Dispatch κ) :=
  let r := react d.log.length callback
  let d' : Dispatch κ :=
    { observers := r.edits.foldl LiveObservers.edit d.observers
      log := d.log ++ [((key, callback), r.edits)] }
  if r.throws then .error d' else .ok d'

/-- `if (this.observers[key]) this.observers[key].forEach(..)` -/
def Calls (react : Nat → κ → Reaction κ) (key : String) (d : Dispatch κ)
    (r : Except (Dispatch κ) (Dispatch κ)) : Prop :=
  match d.observers.at key with
  | .missing => r = .ok d
  | .own _ => ∃ r', Ends (visit (fun d => d.observers.data key) (Dispatch.call react key)) (0, d) r' ∧
      r = r'.map Prod.snd
  | .inherited => r = .error d

def Dispatches (react : Nat → κ → Reaction κ) (contentTopic : Option String) (d : Dispatch κ)
    (r : Except (Dispatch κ) (Dispatch κ)) : Prop :=
  ∃ r', Calls react "" d r' ∧
    match r' with
    | .error d' => r = .error d'
    | .ok d' =>
      match contentTopic with
      | none => r = .ok d'
      | some contentTopic =>
        if contentTopic = "" then r = .ok d' else Calls react contentTopic d' r

def liveAfter (history : List (Edit κ)) : Dispatch κ :=
  ⟨history.foldl LiveObservers.edit .empty, []⟩

theorem refines_liveAfter (history : List (Edit κ)) :
    Refines (liveAfter history).observers (afterEdits history) :=
  @refines_foldl κ _ .empty [] (fun _ => rfl) history

theorem standing_iff_data {live : LiveObservers κ} {history : List (Edit κ)} {key : String} {c : κ}
    (h : Refines live (afterEdits history))
    (hordinary : ∀ e ∈ history, ∀ t ∈ e.topics, t ∉ objectPrototype) :
    Standing Edit.puts Edit.takes history (key, c) ↔ c ∈ (live.data key).toSet := by
  rw [← found_afterEdits hordinary, found_iff, h key, LiveObservers.data]
  cases live.get key with
  | none =>
    refine iff_of_false ?_ OrdSet.not_mem_empty
    rintro ⟨_, hnone, _⟩
    cases hnone
  | some s => simp

theorem count_called (d : Dispatch κ) (key : String) (c : κ) :
    d.called.count (key, c) = (d.told key).count c := by
  unfold Dispatch.told
  induction d.called with
  | nil => rfl
  | cons registration called ih =>
    obtain ⟨key', c'⟩ := registration
    by_cases hkey : key' = key
    · subst hkey
      by_cases hc : c' = c
      · subst hc
        simp [ih]
      · simp [ih, hc]
    · simp [ih, hkey]

variable {react : Nat → κ → Reaction κ} {d d' : Dispatch κ} {history : List (Edit κ)}
  {contentTopic : Option String} {key key' : String} {c : κ} {p : Nat}

theorem left_call (react : Nat → κ → Reaction κ) (key : String) (c : κ) (d : Dispatch κ) :
    left (d.call react key c) =
      { observers := (react d.log.length c).edits.foldl LiveObservers.edit d.observers
        log := d.log ++ [((key, c), (react d.log.length c).edits)] } := by
  unfold Dispatch.call
  dsimp only
  split <;> rfl

theorem made_call (react : Nat → κ → Reaction κ) (key : String) (c : κ) (d : Dispatch κ) :
    (left (d.call react key c)).made = d.made ++ (react d.log.length c).edits := by
  rw [left_call, Dispatch.made, List.flatMap_append, List.flatMap_singleton]
  rfl

/-- What nobody deletes stays in its place. -/
theorem at_call (hat : (d.observers.data key').At p c) {c' : κ}
    (hkeeps : ∀ e ∈ (react d.log.length c').edits, ¬ e.takes (key', c)) :
    ((left (d.call react key c')).observers.data key').At p c := by
  rw [left_call]
  refine @edits_keep κ _ _ (fun live => (LiveObservers.data live key').At p c) _ ?_ hat
  intro e he live live' t ht hlive hedit
  refine at_editAt hedit hlive fun hdeletes hkey hc => hkeeps e he ⟨hdeletes, ?_, hc⟩
  exact hkey ▸ ht

/-- What adds nobody makes no set longer. -/
theorem length_call {c : κ} (hadds : ∀ e ∈ (react d.log.length c).edits, e.adds = false) :
    ((left (d.call react key c)).observers.data key').entries.length =
      (d.observers.data key').entries.length := by
  rw [left_call]
  refine @edits_keep κ _ _ (fun live => (LiveObservers.data live key').entries.length =
    (d.observers.data key').entries.length) _ ?_ rfl
  intro e he live live' t _ hlive hedit
  exact (length_editAt hedit (hadds e he) key').trans hlive

theorem later_call (react : Nat → κ → Reaction κ) (key key' : String) (c : κ) (d : Dispatch κ) :
    SetData.Later (d.observers.data key') ((left (d.call react key c)).observers.data key') := by
  rw [left_call]
  refine @edits_keep κ _ _ (fun live => SetData.Later (d.observers.data key')
    (LiveObservers.data live key')) _ ?_ (.refl _)
  intro e _ live live' t _ hlive hedit
  exact hlive.trans (later_editAt hedit key')

theorem tallied_call (react : Nat → κ → Reaction κ) (key : String) :
    Tallied (fun d => LiveObservers.data d.observers key) (Dispatch.call react key)
      (Dispatch.told key) where
  told c d := by
    rw [left_call, told_append]
    simp
  later c d := later_call react key key c d

/-- The observers are what the edits so far make of them. -/
structure Sound (history : List (Edit κ)) (contentTopic : Option String) (d : Dispatch κ) : Prop where
  refines : Refines d.observers (afterEdits (history ++ d.made))
  ordinary : ∀ e ∈ history ++ d.made, ∀ t ∈ e.topics, t ∉ objectPrototype
  entitled : Entitled history contentTopic d.log

theorem sound_liveAfter (hordinary : ∀ e ∈ history, ∀ t ∈ e.topics, t ∉ objectPrototype) :
    Sound history contentTopic (liveAfter history) := by
  have hmade : history ++ (liveAfter history).made = history := List.append_nil history
  refine ⟨?_, ?_, .nil⟩
  · rw [hmade]
    exact refines_liveAfter history
  · rwa [hmade]

/-- Who is in a set, has been added and not deleted since. -/
theorem Sound.standing_iff (h : Sound history contentTopic d) :
    Standing Edit.puts Edit.takes (history ++ d.made) (key, c) ↔
      c ∈ (d.observers.data key).toSet :=
  standing_iff_data h.refines h.ordinary

theorem Sound.call (h : Sound history contentTopic d)
    (hreact : ∀ k c, ∀ e ∈ (react k c).edits, ∀ t ∈ e.topics, t ∉ objectPrototype)
    (hkey : key = "" ∨ contentTopic = some key) (hat : (d.observers.data key).At p c) :
    Sound history contentTopic (left (d.call react key c)) := by
  refine ⟨?_, fun e he => ?_, ?_⟩
  · rw [made_call, left_call, ← List.append_assoc]
    exact refines_foldl h.refines _
  · rw [made_call, ← List.append_assoc, List.mem_append] at he
    rcases he with he | he
    · exact h.ordinary e he
    · exact hreact _ _ e he
  · rw [left_call]
    exact .call h.entitled hkey (h.standing_iff.mpr (SetData.mem_toSet.mpr ⟨p, hat⟩))

variable {r : Except (Dispatch κ) (Dispatch κ)}

/-- What every call keeps. -/
theorem calls_keep {I : Dispatch κ → Prop}
    (hcall : ∀ d c p, I d → (d.observers.data key).At p c → I (left (d.call react key c)))
    (h : Calls react key d r) (hd : I d) : I (left r) := by
  unfold Calls at h
  split at h
  · rw [h]
    exact hd
  · obtain ⟨r', hends, rfl⟩ := h
    exact visit_keeps (fun c d p hI hat => hcall d c p hI hat) hends hd
  · rw [h]
    exact hd

theorem Sound.calls (hreact : ∀ k c, ∀ e ∈ (react k c).edits, ∀ t ∈ e.topics, t ∉ objectPrototype)
    (hkey : key = "" ∨ contentTopic = some key) (h : Calls react key d r)
    (hd : Sound history contentTopic d) : Sound history contentTopic (left r) :=
  calls_keep (fun _ _ _ hd hat => hd.call hreact hkey hat) h hd

theorem log_calls (h : Calls react key d r) : d.log <+: (left r).log := by
  refine calls_keep (I := fun d' => d.log <+: d'.log) (fun d' c _ hd' _ => ?_) h List.prefix_rfl
  rw [left_call]
  exact hd'.trans (List.prefix_append _ _)

theorem made_calls (h : Calls react key d r) : d.made <+: (left r).made :=
  (log_calls h).flatMap Prod.snd

theorem told_calls_apart (h : Calls react key d r) (hne : key ≠ key') :
    (left r).told key' = d.told key' := by
  refine calls_keep (I := fun d' => d'.told key' = d.told key') (fun d' c _ hd' _ => ?_) h rfl
  rw [left_call, told_append, if_neg hne, List.append_nil]
  exact hd'

theorem at_calls (h : Calls react key d r) (hat : (d.observers.data key').At p c)
    (hkeeps : ∀ e ∈ (left r).made, ¬ e.takes (key', c)) :
    ((left r).observers.data key').At p c := by
  refine calls_keep (I := fun d' => (∀ e ∈ d'.made, ¬ e.takes (key', c)) →
    (d'.observers.data key').At p c) (fun d' c' _ hd' _ hkeeps => ?_) h (fun _ => hat) hkeeps
  rw [made_call] at hkeeps
  exact at_call (hd' fun e he => hkeeps e (List.mem_append_left _ he))
    fun e he => hkeeps e (List.mem_append_right _ he)

/-- Once all are called. -/
theorem calls_all (h : Calls react key d (.ok d')) : ∃ calls, d'.told key = d.told key ++ calls ∧
    (∀ p c, (d.observers.data key).At p c → (d'.observers.data key).At p c →
      calls.count c = 1) ∧ ∀ c ∈ (d'.observers.data key).toSet, c ∈ calls := by
  unfold Calls at h
  split at h
  · rename_i hmissing
    cases h
    refine ⟨[], (List.append_nil _).symm, fun p c hat => ?_, fun c hc => ?_⟩
    · rw [data_of_missing hmissing] at hat
      cases hat
    · rw [data_of_missing hmissing] at hc
      cases hc
  · obtain ⟨r' | ⟨i, d''⟩, hends, hr⟩ := h
    · cases hr
    · cases hr
      exact visit_all (tallied_call react key) hends
  · cases h

/-! ## All calls -/

/-- One of the two loops, or one after the other. -/
theorem dispatches_cases (h : Dispatches react contentTopic d r) :
    (Calls react "" d r ∧ ∀ d' t, r = .ok d' → contentTopic = some t → t = "") ∨
      ∃ t d₁, contentTopic = some t ∧ t ≠ "" ∧ Calls react "" d (.ok d₁) ∧ Calls react t d₁ r := by
  obtain ⟨d' | d', hfirst, hrest⟩ := h
  · change r = .error d' at hrest
    subst hrest
    exact .inl ⟨hfirst, fun _ _ hr => by cases hr⟩
  · cases contentTopic with
    | none =>
      change r = .ok d' at hrest
      subst hrest
      exact .inl ⟨hfirst, fun _ _ _ ht => by cases ht⟩
    | some t =>
      change (if t = "" then r = .ok d' else Calls react t d' r) at hrest
      split at hrest
      · rename_i hempty
        subst hrest
        exact .inl ⟨hfirst, fun _ t' _ ht => by cases ht; exact hempty⟩
      · rename_i hne
        exact .inr ⟨t, d', rfl, hne, hfirst, hrest⟩

theorem dispatches_keep {I : Dispatch κ → Prop}
    (hcall : ∀ key d c p, key = "" ∨ contentTopic = some key → I d →
      (d.observers.data key).At p c → I (left (d.call react key c)))
    (h : Dispatches react contentTopic d r) (hd : I d) : I (left r) := by
  obtain ⟨hfirst, _⟩ | ⟨t, d₁, ht, _, hfirst, hsecond⟩ := dispatches_cases h
  · exact calls_keep (hcall "" · · · (.inl rfl)) hfirst hd
  · exact calls_keep (hcall t · · · (.inr ht)) hsecond
      (calls_keep (hcall "" · · · (.inl rfl)) hfirst hd)

theorem dispatches_sound
    (hreact : ∀ k c, ∀ e ∈ (react k c).edits, ∀ t ∈ e.topics, t ∉ objectPrototype)
    (h : Dispatches react contentTopic d r) (hd : Sound history contentTopic d) :
    Sound history contentTopic (left r) :=
  dispatches_keep (fun _ _ _ _ hkey hd hat => hd.call hreact hkey hat) h hd

/-- Who stays is called once under the key, and who is there at the end has been called. -/
structure Reached (history : List (Edit κ)) (key : String) (d : Dispatch κ) : Prop where
  once : ∀ c, Standing Edit.puts Edit.takes history (key, c) →
    (∀ e ∈ d.made, ¬ e.takes (key, c)) → d.called.count (key, c) = 1
  last : ∀ c, Standing Edit.puts Edit.takes (history ++ d.made) (key, c) → (key, c) ∈ d.called

theorem reached_calls (hd : Sound history contentTopic d) (hd' : Sound history contentTopic d')
    (h : Calls react key d (.ok d')) (hnone : d.told key = []) : Reached history key d' := by
  obtain ⟨calls, htold, honce, hlast⟩ := calls_all h
  rw [hnone, List.nil_append] at htold
  obtain ⟨since, hsince⟩ := made_calls h
  change d.made ++ since = d'.made at hsince
  refine ⟨fun c hstanding hkeeps => ?_, fun c hstanding => ?_⟩
  · have hthere : Standing Edit.puts Edit.takes (history ++ d.made) (key, c) := by
      refine (standing_append_all history d.made).mpr (.inr ⟨hstanding, fun e he => hkeeps e ?_⟩)
      rw [← hsince]
      exact List.mem_append_left _ he
    obtain ⟨p, hat⟩ := SetData.mem_toSet.mp (hd.standing_iff.mp hthere)
    rw [count_called, htold]
    exact honce p c hat (at_calls h hat hkeeps)
  · have hcalled := hlast c (hd'.standing_iff.mp hstanding)
    rw [← List.count_pos_iff, count_called, htold]
    exact List.count_pos_iff.mpr hcalled

/-- What the calls come to when they are all made. -/
structure Complete (history : List (Edit κ)) (contentTopic : Option String) (d : Dispatch κ) :
    Prop where
  once : ∀ registration, registration.1 = "" ∨ contentTopic = some registration.1 →
    Standing Edit.puts Edit.takes history registration → (∀ e ∈ d.made, ¬ e.takes registration) →
      d.called.count registration = 1
  last : ∀ key c, contentTopic = some key →
    Standing Edit.puts Edit.takes (history ++ d.made) (key, c) → (key, c) ∈ d.called

theorem complete_dispatches
    (hreact : ∀ k c, ∀ e ∈ (react k c).edits, ∀ t ∈ e.topics, t ∉ objectPrototype)
    (hd : Sound history contentTopic d) (hnone : ∀ key, d.told key = [])
    (h : Dispatches react contentTopic d (.ok d')) : Complete history contentTopic d' := by
  have hd' : Sound history contentTopic d' := dispatches_sound hreact h hd
  obtain ⟨hfirst, hempty⟩ | ⟨t, d₁, ht, hne, hfirst, hsecond⟩ := dispatches_cases h
  · have hreached := reached_calls hd hd' hfirst (hnone "")
    have hkey : ∀ key, contentTopic = some key → key = "" := fun key => hempty d' key rfl
    refine ⟨fun ⟨key, c⟩ hwants => ?_, fun key c ht => ?_⟩
    · obtain rfl : key = "" := hwants.elim id (hkey key)
      exact hreached.once c
    · obtain rfl := hkey key ht
      exact hreached.last c
  · have hd₁ : Sound history contentTopic d₁ := hd.calls hreact (.inl rfl) hfirst
    have hreached := reached_calls hd hd₁ hfirst (hnone "")
    have hreached' := reached_calls hd₁ hd' hsecond
      ((told_calls_apart hfirst (Ne.symm hne)).trans (hnone t))
    refine ⟨fun ⟨key, c⟩ hwants hstanding hkeeps => ?_, fun key c ht' => ?_⟩
    · rcases hwants with hkey | hkey
      · change key = "" at hkey
        subst hkey
        -- The second loop calls nobody under the empty key.
        rw [count_called, ← show d₁.told "" = d'.told "" from (told_calls_apart hsecond hne).symm,
          ← count_called]
        exact hreached.once c hstanding fun e he => hkeeps e ((made_calls hsecond).subset he)
      · rw [ht] at hkey
        cases hkey
        exact hreached'.once c hstanding hkeeps
    · rw [ht] at ht'
      cases ht'
      exact hreached'.last c

theorem calls_deterministic {r' : Except (Dispatch κ) (Dispatch κ)} (h : Calls react key d r)
    (h' : Calls react key d r') : r = r' := by
  unfold Calls at h h'
  cases hat : d.observers.at key with
  | missing =>
    rw [hat] at h h'
    exact h.trans h'.symm
  | inherited =>
    rw [hat] at h h'
    exact h.trans h'.symm
  | own s =>
    rw [hat] at h h'
    obtain ⟨_, hends, rfl⟩ := h
    obtain ⟨_, hends', rfl⟩ := h'
    rw [hends.deterministic hends']

theorem calls_end {N : Nat}
    (hdeletes : ∀ k, N ≤ k → ∀ c, ∀ e ∈ (react k c).edits, e.adds = false) (key : String)
    (d : Dispatch κ) : ∃ r, Calls react key d r := by
  have hadds : ∀ c (d : Dispatch κ), N ≤ (d.told key).length →
      ((left (d.call react key c)).observers.data key).entries.length =
        (d.observers.data key).entries.length := by
    intro c d hN
    have hlog : N ≤ d.log.length := by
      refine Nat.le_trans hN (Nat.le_trans (List.length_filterMap_le _ _) ?_)
      exact Nat.le_of_eq (List.length_map _)
    exact length_call (hdeletes _ hlog c)
  unfold Calls
  cases d.observers.at key with
  | missing => exact ⟨_, rfl⟩
  | inherited => exact ⟨_, rfl⟩
  | own s =>
    obtain ⟨r, hr⟩ := visit_ends (tallied_call react key) N hadds 0 d
    exact ⟨_, r, hr, rfl⟩

theorem dispatches_end {N : Nat}
    (hdeletes : ∀ k, N ≤ k → ∀ c, ∀ e ∈ (react k c).edits, e.adds = false)
    (contentTopic : Option String) (d : Dispatch κ) : ∃ r, Dispatches react contentTopic d r := by
  obtain ⟨d' | d', hfirst⟩ := calls_end hdeletes "" d
  · exact ⟨_, _, hfirst, rfl⟩
  · cases contentTopic with
    | none => exact ⟨_, _, hfirst, rfl⟩
    | some t =>
      by_cases ht : t = ""
      · refine ⟨.ok d', _, hfirst, ?_⟩
        change if t = "" then Except.ok d' = Except.ok d' else Calls react t d' (.ok d')
        rw [if_pos ht]
      · obtain ⟨r, hsecond⟩ := calls_end hdeletes t d'
        refine ⟨r, _, hfirst, ?_⟩
        change if t = "" then r = .ok d' else Calls react t d' r
        rwa [if_neg ht]

theorem dispatch_reentrant (hordinary : ∀ e ∈ history, ∀ t ∈ e.topics, t ∉ objectPrototype)
    (hreact : ∀ k c, ∀ e ∈ (react k c).edits, ∀ t ∈ e.topics, t ∉ objectPrototype)
    (contentTopic : Option String) :
    (∀ r, Dispatches react contentTopic (liveAfter history) r →
      Entitled history contentTopic (left r).log ∧
        ∀ d, r = .ok d → Complete history contentTopic d) ∧
      ((∃ N, ∀ k, N ≤ k → ∀ c, ∀ e ∈ (react k c).edits, e.adds = false) →
        ∃ r, Dispatches react contentTopic (liveAfter history) r) := by
  refine ⟨fun r h => ⟨?_, ?_⟩, fun ⟨N, hdeletes⟩ => dispatches_end hdeletes contentTopic _⟩
  · exact (dispatches_sound hreact h (sound_liveAfter hordinary)).entitled
  · rintro d rfl
    exact complete_dispatches hreact (sound_liveAfter hordinary) (fun _ => rfl) h

/-! ## Callbacks that leave the observers alone -/

section

variable {throws : κ → Bool}

/-- `forEach` over a set that does not change is a walk along its elements. -/
theorem visit_plain (key : String) (l : List (Option κ)) (i : Nat) (d : Dispatch κ)
    (hl : (d.observers.data key).entries.drop i = l) :
    ∃ r, Ends (visit (fun d => LiveObservers.data d.observers key)
        (Dispatch.call (fun _ c => ⟨[], throws c⟩) key)) (i, d) r ∧
      (left (r.map Prod.snd)).observers = d.observers ∧
      (left (r.map Prod.snd)).called =
        d.called ++ (callEach throws l.reduceOption).1.map (Prod.mk key) ∧
      ((∃ d', r = .error d') ↔ (callEach throws l.reduceOption).2 = true) := by
  induction l generalizing i d with
  | nil =>
    have hend : (d.observers.data key).entries[i]? = none :=
      List.getElem?_eq_none_iff.mpr (List.drop_eq_nil_iff.mp hl)
    refine ⟨.ok (i, d), .stop (by simp only [visit, hend]), rfl, (List.append_nil _).symm, ?_⟩
    simp [callEach]
  | cons e l ih =>
    have hat : (d.observers.data key).entries[i]? = some e := by
      rw [← List.head?_drop, hl]
      rfl
    have hrest : (d.observers.data key).entries.drop (i + 1) = l := by
      rw [← List.tail_drop, hl]
      rfl
    cases e with
    | none =>
      obtain ⟨r, hr, hsame⟩ := ih (i + 1) d hrest
      exact ⟨r, .again (by simp only [visit, hat]) hr, hsame⟩
    | some c =>
      rw [List.reduceOption_cons_of_some, callEach]
      let d' : Dispatch κ := ⟨d.observers, d.log ++ [((key, c), [])]⟩
      have hcall : Dispatch.call (fun _ c => ⟨[], throws c⟩) key c d =
          if throws c then .error d' else .ok d' := rfl
      by_cases hthrows : throws c = true
      · rw [if_pos hthrows] at hcall
        refine ⟨.error d', .throws (by simp only [visit, hat, hcall]), rfl, ?_, ?_⟩
        · simp [d', left, Except.map, Dispatch.called, hthrows]
        · simp [hthrows]
      · rw [if_neg hthrows] at hcall
        obtain ⟨r, hr, hobservers, hcalled, hiff⟩ := ih (i + 1) d' hrest
        refine ⟨r, .again (by simp only [visit, hat, hcall]) hr, hobservers, ?_, ?_⟩
        · rw [hcalled]
          simp [d', Dispatch.called, hthrows]
        · rw [hiff]
          simp [hthrows]

theorem calls_plain {observers : Observers κ} (hrefines : Refines d.observers observers)
    (h : Calls (fun _ c => ⟨[], throws c⟩) key d r) :
    (left r).observers = d.observers ∧
      (left r).called = d.called ++ (callAt throws observers key).1 ∧
      ((∃ d', r = .error d') ↔ (callAt throws observers key).2 = true) := by
  have hget := hrefines key
  unfold callAt Observers.at
  cases hlive : d.observers.get key with
  | none =>
    have hat : d.observers.at key = if key ∈ objectPrototype then .inherited else .missing := by
      rw [LiveObservers.at, hlive]
    rw [hlive, Option.map_none] at hget
    rw [hget]
    by_cases hkey : key ∈ objectPrototype
    · rw [if_pos hkey] at hat
      rw [Calls, hat] at h
      subst h
      simp [hkey, left]
    · rw [if_neg hkey] at hat
      rw [Calls, hat] at h
      subst h
      simp [hkey, left]
  | some s =>
    have hat : d.observers.at key = .own s := by rw [LiveObservers.at, hlive]
    rw [hlive, Option.map_some] at hget
    rw [hget]
    obtain ⟨r', hends, hobservers, hcalled, hiff⟩ :=
      @visit_plain κ _ throws key (d.observers.data key).entries 0 d rfl
    have hcalls : Calls (fun _ c => ⟨[], throws c⟩) key d (r'.map Prod.snd) := by
      rw [Calls, hat]
      exact ⟨r', hends, rfl⟩
    rw [data_of_own hat] at hcalled hiff
    obtain rfl := calls_deterministic h hcalls
    refine ⟨hobservers, hcalled, Iff.trans ?_ hiff⟩
    cases r' <;> simp [Except.map]

theorem called_plain
    (h : Dispatches (fun _ c => ⟨[], throws c⟩) contentTopic (liveAfter history) r) :
    (left r).called = notify throws (afterEdits history) contentTopic := by
  have hrefines := refines_liveAfter history
  obtain ⟨r', hfirst, hrest⟩ := h
  obtain ⟨hobservers, hcalled, hthrew⟩ := calls_plain hrefines hfirst
  have hcalled' : (left r').called = (callAt throws (afterEdits history) "").1 := by
    rw [hcalled]
    exact List.nil_append _
  unfold notify
  generalize callAt throws (afterEdits history) "" = first at hcalled' hthrew ⊢
  obtain ⟨called, threw⟩ := first
  dsimp only at hcalled' hthrew ⊢
  cases r' with
  | error d' =>
    change r = .error d' at hrest
    subst hrest
    rw [if_pos (hthrew.mp ⟨d', rfl⟩)]
    exact hcalled'
  | ok d' =>
    have hnot : ¬ threw = true := fun hthrow => by
      obtain ⟨_, herror⟩ := hthrew.mpr hthrow
      cases herror
    rw [if_neg hnot]
    cases contentTopic with
    | none =>
      change r = .ok d' at hrest
      subst hrest
      exact hcalled'
    | some t =>
      change (if t = "" then r = .ok d' else Calls _ t d' r) at hrest
      by_cases ht : t = ""
      · rw [if_pos ht] at hrest
        subst hrest
        simp only [ht, if_true]
        exact hcalled'
      · rw [if_neg ht] at hrest
        change d'.observers = _ at hobservers
        rw [← hobservers] at hrefines
        obtain ⟨_, hsecond, _⟩ := calls_plain hrefines hrest
        simp only [ht, if_false]
        rw [hsecond, ← hcalled']
        rfl

/-- The dispatch is then the one of the observers as they are between two messages. -/
theorem dispatch_plain (throws : κ → Bool) (history : List (Edit κ)) (contentTopic : Option String) :
    (∃ r, Dispatches (fun _ c => ⟨[], throws c⟩) contentTopic (liveAfter history) r) ∧
      ∀ r, Dispatches (fun _ c => ⟨[], throws c⟩) contentTopic (liveAfter history) r →
        (left r).called = notify throws (afterEdits history) contentTopic := by
  refine ⟨?_, fun r h => called_plain h⟩
  exact @dispatches_end κ _ (fun _ c => ⟨[], throws c⟩) 0 (fun _ _ _ => List.forall_mem_nil _)
    contentTopic (liveAfter history)

end

end

namespace OneShot

def history : List (Edit Nat) := [⟨true, 0, []⟩, ⟨true, 1, []⟩]

def react (_ : Nat) (c : Nat) : Reaction Nat := ⟨if c = 0 then [⟨false, 0, []⟩] else [], false⟩

def done : Dispatch Nat :=
  left (Dispatch.call react "" 1 (left (Dispatch.call react "" 0 (liveAfter history))))

theorem dispatches : Dispatches react none (liveAfter history) (.ok done) :=
  ⟨.ok done, ⟨.ok (2, done), .again rfl (.again rfl (.stop rfl)), rfl⟩, rfl⟩

theorem standing : Standing Edit.puts Edit.takes history ("", 1) :=
  ⟨[⟨true, 0, []⟩], ⟨true, 1, []⟩, [], rfl, ⟨rfl, List.mem_cons_self, rfl⟩, List.forall_mem_nil _⟩

theorem stays : ∀ e ∈ done.made, ¬ e.takes ("", 1) := by
  intro e he
  obtain rfl := List.mem_singleton.mp (show e ∈ [⟨false, 0, []⟩] from he)
  rintro ⟨_, _, hc⟩
  cases hc

theorem ordinary : ∀ e ∈ history, ∀ t ∈ e.topics, t ∉ objectPrototype := by decide

theorem react_ordinary (k c : Nat) :
    ∀ e ∈ (react k c).edits, ∀ t ∈ e.topics, t ∉ objectPrototype := by
  unfold react
  by_cases hc : c = 0
  · rw [if_pos hc]
    decide
  · rw [if_neg hc]
    exact List.forall_mem_nil _

end OneShot

/-- Two that leave the observers alone. -/
theorem dispatch_plain_two : ∃ r, Dispatches (fun _ c => ⟨[], decide (c = 2)⟩) none
    (liveAfter OneShot.history) r ∧
      (left r).called = notify (fun c => decide (c = 2)) (afterEdits OneShot.history) none := by
  obtain ⟨⟨r, hr⟩, hcalled⟩ := dispatch_plain (fun c => decide (c = 2)) OneShot.history none
  exact ⟨r, hr, hcalled r hr⟩

/-- The other one is called all the same. -/
theorem dispatch_reentrant_once : OneShot.done.called.count ("", 1) = 1 :=
  ((dispatch_reentrant OneShot.ordinary OneShot.react_ordinary none).1 _ OneShot.dispatches).2
    OneShot.done rfl |>.once ("", 1) (.inl rfl) OneShot.standing OneShot.stays

end Relay
end JsWaku
