import Mathlib.Data.List.Forall2
import Mathlib.Data.List.Perm.Basic
import Mathlib.Data.Option.Basic

/-!
# JsWaku.Lib.Arrival

Results listed in the order in which they arrive, against the order of the places they are for.

`f i` is the result for place `i`, if there is one; an order is a list of places.

* `AsListed f order places` — one by one, the places with a result come in `order` as they do in
  `places`, up to places with the same result.
* `filterMap_eq_iff` — that is what it takes for the results to be listed alike.
* `every_order_iff`  — only equal results are safe from every order.
* `flatMap_range_inj` — lists in pieces of the same lengths are equal piece by piece.
-/

namespace Arrival

variable {ι α : Type} {f : ι → Option α} {order places : List ι}

def AsListed (f : ι → Option α) (order places : List ι) : Prop :=
  List.Forall₂ (fun i j => f i = f j) (order.filter fun i => (f i).isSome)
    (places.filter fun i => (f i).isSome)

theorem map_filterMap (order : List ι) :
    (order.filter fun i => (f i).isSome).map f = (order.filterMap f).map some := by
  induction order with
  | nil => rfl
  | cons i order ih => cases h : f i <;> simp [h, ih]

theorem filterMap_eq_iff : order.filterMap f = places.filterMap f ↔ AsListed f order places := by
  have hmap : AsListed f order places ↔
      (order.filter fun i => (f i).isSome).map f = (places.filter fun i => (f i).isSome).map f := by
    rw [← List.forall₂_eq_eq_eq, List.forall₂_map_left_iff, List.forall₂_map_right_iff]
    rfl
  rw [hmap, map_filterMap, map_filterMap]
  exact (List.map_injective_iff.mpr (Option.some_injective α)).eq_iff.symm

theorem asListed_refl : AsListed f places places := filterMap_eq_iff.mp rfl

/-- Two results that differ can each be made to come first. -/
theorem every_order_iff [DecidableEq ι] :
    (∀ order, order.Perm places → AsListed f order places) ↔
      ∀ x ∈ places.filterMap f, ∀ y ∈ places.filterMap f, x = y := by
  simp only [← filterMap_eq_iff]
  constructor
  · intro h
    have hfirst : ∀ x ∈ places.filterMap f, (places.filterMap f).head? = some x := by
      intro x hx
      obtain ⟨i, hi, hfi⟩ := List.mem_filterMap.mp hx
      rw [← h (i :: places.erase i) (List.perm_cons_erase hi).symm, List.filterMap_cons_some hfi]
      rfl
    intro x hx y hy
    exact Option.some.inj ((hfirst x hx).symm.trans (hfirst y hy))
  · intro h order hperm
    have hresults := hperm.filterMap f
    cases hxs : places.filterMap f with
    | nil =>
      rw [hxs] at hresults
      exact hresults.eq_nil
    | cons x xs =>
      have hsame : places.filterMap f = List.replicate (xs.length + 1) x := by
        refine List.eq_replicate_iff.mpr ⟨by rw [hxs]; rfl, fun y hy => ?_⟩
        exact h y hy x (by rw [hxs]; exact List.mem_cons_self)
      rw [hsame] at hresults
      rw [List.perm_replicate.mp hresults, ← hxs, hsame]

theorem flatMap_range_inj {n : Nat} {g g' : Nat → List α}
    (hlength : ∀ k < n, (g k).length = (g' k).length)
    (h : (List.range n).flatMap g = (List.range n).flatMap g') : ∀ k < n, g k = g' k := by
  induction n with
  | zero => intro k hk; omega
  | succ n ih =>
    rw [List.range_succ, List.flatMap_append, List.flatMap_append, List.flatMap_singleton,
      List.flatMap_singleton] at h
    obtain ⟨hbefore, hlast⟩ := List.append_inj' h (hlength n (Nat.lt_succ_self n))
    intro k hk
    rcases Nat.lt_succ_iff_lt_or_eq.mp hk with hk | rfl
    · exact ih (fun j hj => hlength j (Nat.lt_succ_of_lt hj)) hbefore k hk
    · exact hlast

end Arrival
