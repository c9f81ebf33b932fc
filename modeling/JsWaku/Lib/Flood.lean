import Mathlib.Algebra.GroupWithZero.Nat
import Mathlib.Data.List.Nodup
import Mathlib.Logic.Relation

/-!
# JsWaku.Lib.Flood

A message that spreads: whoever gets it for the first time passes it on, and whoever has it already
drops it. Copies may arrive in any order.

* `State`     — who has heard the message, with what each of them went by, and the copies.
* `Spreads`   — the states a message gets to.
* `Link`      — a node that has heard addresses another, which takes what comes from it.
* `heard_iff` — when no copy is left on its way, those have heard who are linked to the author, even if
  nodes leave out some that they know to have heard.
-/

namespace Flood

open Relation

variable {N K : Type}

/-- `inFlight` are the copies on their way, and `sent` all there have ever been. -/
structure State (N K : Type) where
  heard : List (N × K)
  inFlight : List (N × N)
  sent : List (N × N)

def State.silent : State N K := ⟨[], [], []⟩

def State.hearers (s : State N K) : List N := s.heard.map Prod.fst

structure Rules (N K : Type) where
  addresses : K → N → Prop
  tells : K → List N
  takes : N → N → Prop

section

variable (R : Rules N K)

def State.pass (s : State N K) (v : N) (k : K) : State N K where
  heard := (v, k) :: s.heard
  inFlight := s.inFlight ++ (R.tells k).map (v, ·)
  sent := s.sent ++ (R.tells k).map (v, ·)

/-- A node tells whom it addresses, except for some that have heard. -/
structure Passes (hearers : List N) (k : K) : Prop where
  nodup : (R.tells k).Nodup
  addressed : ∀ w ∈ R.tells k, R.addresses k w
  others : ∀ w, R.addresses k w → w ∈ R.tells k ∨ w ∈ hearers

inductive Spreads (author : N) : State N K → Prop where
  | start {k : K} : Passes R [author] k → Spreads author (State.silent.pass R author k)
  | dropped {heard : List (N × K)} {before after sent : List (N × N)} {u v : N} :
      Spreads author ⟨heard, before ++ (u, v) :: after, sent⟩ →
      (R.takes u v → v ∈ heard.map Prod.fst) → Spreads author ⟨heard, before ++ after, sent⟩
  | passed {heard : List (N × K)} {before after sent : List (N × N)} {u v : N} {k : K} :
      Spreads author ⟨heard, before ++ (u, v) :: after, sent⟩ → R.takes u v →
      v ∉ heard.map Prod.fst → Passes R (v :: heard.map Prod.fst) k →
      Spreads author (State.pass R ⟨heard, before ++ after, sent⟩ v k)

def Link (s : State N K) (u w : N) : Prop :=
  ∃ k, (u, k) ∈ s.heard ∧ R.addresses k w ∧ R.takes u w

structure Invariant (author : N) (s : State N K) : Prop where
  started : author ∈ s.hearers
  nodup : s.hearers.Nodup
  onTheWay : ∀ u w, Link R s u w → w ∈ s.hearers ∨ (u, w) ∈ s.inFlight
  flying : ∀ e ∈ s.inFlight, ∃ k, (e.1, k) ∈ s.heard ∧ R.addresses k e.2
  reached : ∀ v ∈ s.hearers, ReflTransGen (Link R s) author v
  senders : ∀ e ∈ s.sent, e.1 ∈ s.hearers
  sent_nodup : s.sent.Nodup
  sent_length : s.sent.length = (s.heard.map fun e => (R.tells e.2).length).sum

end

variable {R : Rules N K} {author u v w : N} {k : K} {s : State N K}

theorem mem_hearers (h : (v, k) ∈ s.heard) : v ∈ s.hearers := List.mem_map.mpr ⟨_, h, rfl⟩

theorem link_pass : Link R (s.pass R v k) u w ↔
    u = v ∧ R.addresses k w ∧ R.takes v w ∨ Link R s u w := by
  constructor
  · rintro ⟨k', hmem, haddresses, htakes⟩
    rcases List.mem_cons.mp hmem with heq | hmem
    · cases heq
      exact .inl ⟨rfl, haddresses, htakes⟩
    · exact .inr ⟨k', hmem, haddresses, htakes⟩
  · rintro (⟨rfl, haddresses, htakes⟩ | ⟨k', hmem, haddresses, htakes⟩)
    · exact ⟨k, List.mem_cons_self, haddresses, htakes⟩
    · exact ⟨k', List.mem_cons_of_mem _ hmem, haddresses, htakes⟩

theorem mem_copies {l : List N} : (u, w) ∈ l.map (v, ·) ↔ u = v ∧ w ∈ l := by
  constructor
  · intro h
    obtain ⟨_, hmem, heq⟩ := List.mem_map.mp h
    cases heq
    exact ⟨rfl, hmem⟩
  · rintro ⟨rfl, h⟩
    exact List.mem_map.mpr ⟨w, h, rfl⟩

theorem nodup_copies {l : List N} (h : l.Nodup) : (l.map (v, ·)).Nodup :=
  h.map fun _ _ heq => (Prod.mk.inj heq).2

/-- The state before a node passes on need only be right about everything else. -/
theorem invariant_pass (hauthor : author ∈ v :: s.hearers) (hnodup : (v :: s.hearers).Nodup)
    (honTheWay : ∀ u w, Link R s u w → w ∈ v :: s.hearers ∨ (u, w) ∈ s.inFlight)
    (hflying : ∀ e ∈ s.inFlight, ∃ k, (e.1, k) ∈ s.heard ∧ R.addresses k e.2)
    (hreached : ∀ w ∈ v :: s.hearers, ReflTransGen (Link R s) author w)
    (hsenders : ∀ e ∈ s.sent, e.1 ∈ s.hearers) (hsent : s.sent.Nodup)
    (hlength : s.sent.length = (s.heard.map fun e => (R.tells e.2).length).sum)
    (hpasses : Passes R (v :: s.hearers) k) : Invariant R author (s.pass R v k) where
  started := hauthor
  nodup := hnodup
  onTheWay u w hlinked := by
    rcases link_pass.mp hlinked with ⟨rfl, haddresses, _⟩ | hlinked
    · rcases hpasses.others w haddresses with htold | hheard
      · exact .inr (List.mem_append_right _ (mem_copies.mpr ⟨rfl, htold⟩))
      · exact .inl hheard
    · exact (honTheWay u w hlinked).imp_right (List.mem_append_left _)
  flying := by
    rintro ⟨u, w⟩ he
    rcases List.mem_append.mp he with he | he
    · obtain ⟨k', hmem, haddresses⟩ := hflying _ he
      exact ⟨k', List.mem_cons_of_mem _ hmem, haddresses⟩
    · obtain ⟨rfl, htold⟩ := mem_copies.mp he
      exact ⟨k, List.mem_cons_self, hpasses.addressed w htold⟩
  reached w hw :=
    ReflTransGen.mono (fun _ _ hlinked => link_pass.mpr (.inr hlinked)) _ _ (hreached w hw)
  senders := by
    rintro ⟨u, w⟩ he
    rcases List.mem_append.mp he with he | he
    · exact List.mem_cons_of_mem _ (hsenders _ he)
    · obtain ⟨rfl, _⟩ := mem_copies.mp he
      exact List.mem_cons_self
  sent_nodup := by
    refine hsent.append (nodup_copies hpasses.nodup) ?_
    rintro ⟨u, w⟩ hbefore hnow
    obtain ⟨rfl, _⟩ := mem_copies.mp hnow
    exact (List.nodup_cons.mp hnodup).1 (hsenders _ hbefore)
  sent_length := by
    show (s.sent ++ _).length = _
    rw [List.length_append, List.length_map, hlength, Nat.add_comm]
    rfl

/-! ## Any order of arrivals -/

theorem Spreads.invariant (h : Spreads R author s) : Invariant R author s := by
  induction h with
  | start hpasses =>
    refine invariant_pass List.mem_cons_self (List.nodup_singleton author) ?_ ?_ ?_ ?_
      List.nodup_nil rfl hpasses
    · rintro u w ⟨_, hmem, _⟩
      cases hmem
    · intro e he
      cases he
    · intro w hw
      rw [List.mem_singleton.mp hw]
    · intro e he
      cases he
  | @dropped heard before after sent u v _ hdropped ih =>
    refine ⟨ih.started, ih.nodup, fun u' w hlinked => ?_, fun e he => ?_, ih.reached, ih.senders,
      ih.sent_nodup, ih.sent_length⟩
    · rcases ih.onTheWay u' w hlinked with hheard | hflies
      · exact .inl hheard
      · rcases List.mem_cons.mp (List.perm_middle.mem_iff.mp hflies) with heq | hflies
        · cases heq
          obtain ⟨_, _, _, htakes⟩ := hlinked
          exact .inl (hdropped htakes)
        · exact .inr hflies
    · exact ih.flying e (List.perm_middle.mem_iff.mpr (List.mem_cons_of_mem _ he))
  | @passed heard before after sent u v k _ htakes hnew hpasses ih =>
    refine invariant_pass (List.mem_cons_of_mem _ ih.started)
      (List.nodup_cons.mpr ⟨hnew, ih.nodup⟩) (fun u' w hlinked => ?_) (fun e he => ?_)
      (fun w hw => ?_) ih.senders ih.sent_nodup ih.sent_length hpasses
    · rcases ih.onTheWay u' w hlinked with hheard | hflies
      · exact .inl (List.mem_cons_of_mem _ hheard)
      · rcases List.mem_cons.mp (List.perm_middle.mem_iff.mp hflies) with heq | hflies
        · cases heq
          exact .inl List.mem_cons_self
        · exact .inr hflies
    · exact ih.flying e (List.perm_middle.mem_iff.mpr (List.mem_cons_of_mem _ he))
    · rcases List.mem_cons.mp hw with rfl | hw
      · obtain ⟨k', hmem, haddresses⟩ :=
          ih.flying (u, w) (List.perm_middle.mem_iff.mpr List.mem_cons_self)
        exact (ih.reached u (mem_hearers hmem)).tail ⟨k', hmem, haddresses, htakes⟩
      · exact ih.reached w hw

/-- Leaving out those that have heard costs nobody the message. -/
theorem heard_iff (h : Spreads R author s) (hquiet : s.inFlight = []) :
    v ∈ s.hearers ↔ ReflTransGen (Link R s) author v := by
  have hinv := h.invariant
  constructor
  · exact hinv.reached v
  · intro hpath
    induction hpath with
    | refl => exact hinv.started
    | tail _ hlinked _ =>
      rcases hinv.onTheWay _ _ hlinked with hheard | hflies
      · exact hheard
      · rw [hquiet] at hflies
        cases hflies

end Flood
