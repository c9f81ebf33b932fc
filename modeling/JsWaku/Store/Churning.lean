import JsWaku.Store.Growing
import Mathlib.Data.List.TakeWhile

/-!
# JsWaku.Store.Churning

Reading a history that loses messages between the queries, and gets others.

* `Refuses` — a peer that no longer holds the message that a cursor names says so.
* `Lost`    — that happens to the call.
* `queryHistory_churning` — otherwise it gets, in order and once each, all that was there throughout
  and nothing that never was.
-/

namespace JsWaku
namespace Store

open Js WhileLoop Cursor

def Refuses (histories : Histories) (connection : Connection) : Prop :=
  ∀ {k rpc q name}, rpc.query = some q → q.pagingInfo.bind PagingInfo.cursor = some name →
    (∀ e ∈ histories k q.criteria, e.1 ≠ name) → ∃ reply response,
      connection.exchange k rpc = .ok reply ∧ reply.response = some response ∧
        response.error = errorInvalidCursor

/-- The message that the call has read last is gone when query `k` arrives. -/
def Lost (c : Call) (connection : Connection) (histories : Histories) (k : Nat) : Prop :=
  ∃ name, cursorAt (pagesOf c connection) k = some name ∧
    ∀ e ∈ histories k c.criteria, e.1 ≠ name

section

variable {c : Call} {connection : Connection} {histories : Histories} {n k : Nat}
  {got rest : Entries} {lt : Index → Index → Prop}

theorem behind_or_lost (c : Call) (connection : Connection) (histories : Histories) (k : Nat) :
    (∃ rest, Behind (histories k c.criteria) (cursorAt (pagesOf c connection) k) rest) ∨
      Lost c connection histories k := by
  cases hcursor : cursorAt (pagesOf c connection) k with
  | none => exact .inl ⟨_, .start⟩
  | some name =>
    by_cases hname : ∃ e ∈ histories k c.criteria, e.1 = name
    · obtain ⟨e, he, rfl⟩ := hname
      obtain ⟨before, rest, hsplit⟩ := List.append_of_mem he
      exact .inl ⟨rest, .past before hsplit⟩
    · exact .inr ⟨name, hcursor, fun e he heq => hname ⟨e, he, heq⟩⟩

theorem not_passes_of_lost (hrefuses : Refuses histories connection)
    (h : Lost c connection histories k) : ¬ Passes c connection k := by
  obtain ⟨name, hcursor, hgone⟩ := h
  intro hpasses
  obtain ⟨reply, response, hreply, hresponse, herror⟩ :=
    @hrefuses k (c.query k (cursorAt (pagesOf c connection) k)) _ name rfl hcursor hgone
  obtain ⟨reply', hreply', hresponse'⟩ := hpasses.reply
  rw [hreply] at hreply'
  cases hreply'
  rw [hresponse] at hresponse'
  cases hresponse'
  exact hpasses.error herror

/-- Where the call is before query `k`, if it has not lost its place. -/
theorem sifted_reached (h : Asks c connection histories n)
    (htrans : ∀ {a b c}, lt a b → lt b c → lt a c) (hirrefl : ∀ a, ¬ lt a a)
    (hsorted : ∀ k, (histories k c.criteria).Pairwise fun e e' => lt e.1 e'.1)
    (hreach : Reached c (pagesOf c connection) k)
    (hfound : ∀ j ≤ k, ¬ Lost c connection histories j) :
    ∃ got rest, ReadTo c connection histories n (Sifted lt fun k => histories k c.criteria) k got
      rest := by
  induction k with
  | zero => exact ⟨[], _, .start (sifted_start lt fun k => histories k c.criteria)⟩
  | succ k ih =>
    obtain ⟨got, rest, hread⟩ :=
      ih (fun j hj => hreach j (Nat.lt_succ_of_lt hj)) fun j hj => hfound j (Nat.le_succ_of_le hj)
    obtain ⟨page, e, hlast, hcursor, hnext⟩ := hread.next h (hreach k (Nat.lt_succ_self k))
    obtain ⟨rest', hbehind⟩ :=
      (behind_or_lost c connection histories (k + 1)).resolve_right (hfound _ (Nat.le_refl _))
    rw [hcursor] at hbehind
    exact ⟨_, rest', hnext rest' hbehind
      (hread.keeps.step @htrans hirrefl hsorted hread.behind.suffix hlast hbehind)⟩

/-- What a call has got that returns after query `k`. -/
structure Survives (c : Call) (histories : Histories) (lt : Index → Index → Prop) (k : Nat)
    (got : Entries) : Prop where
  sorted : got.Pairwise fun e e' => lt e.1 e'.1
  seen : ∀ e ∈ got, ∃ j ≤ k, e ∈ histories j c.criteria
  stays : ∀ e, (∀ j ≤ k, e ∈ histories j c.criteria) → e ∈ got

theorem rejected_iff_lost (h : Asks c connection histories n)
    (hrefuses : Refuses histories connection) : (∃ e, Settles c (.error e)) ↔
      ∃ k, Reached c (pagesOf c connection) k ∧ Lost c connection histories k := by
  have hpasses : ∀ {k}, ¬ Lost c connection histories k → Passes c connection k := by
    intro k hfound
    obtain ⟨rest, hbehind⟩ := (behind_or_lost c connection histories k).resolve_right hfound
    exact h.passes hbehind
  rw [rejected_iff h.connected]
  constructor
  · rintro ⟨k, hreach, _, hfails⟩
    exact ⟨k, hreach, not_not.mp (mt hpasses hfails)⟩
  · rintro ⟨k, hreach, hlost⟩
    -- The first place where it is lost.
    induction k using Nat.strongRecOn with
    | ind k ih =>
      by_cases hbefore : ∃ j < k, Lost c connection histories j
      · obtain ⟨j, hj, hlost'⟩ := hbefore
        exact ih j hj (fun i hi => hreach i (Nat.lt_trans hi hj)) hlost'
      · refine ⟨k, hreach, fun j hj => hpasses fun hlost' => hbefore ⟨j, hj, hlost'⟩, ?_⟩
        exact not_passes_of_lost hrefuses hlost

theorem queryHistory_churning (h : Asks c connection histories n)
    (hrefuses : Refuses histories connection) (htrans : ∀ {a b c}, lt a b → lt b c → lt a c)
    (hirrefl : ∀ a, ¬ lt a a)
    (hsorted : ∀ k, (histories k c.criteria).Pairwise fun e e' => lt e.1 e'.1) :
    (∀ st, Settles c (.ok st) → ∃ k got, Ended c k got st ∧ Survives c histories lt k got) ∧
      ((∃ e, Settles c (.error e)) ↔
        ∃ k, Reached c (pagesOf c connection) k ∧ Lost c connection histories k) := by
  refine ⟨fun st hst => ?_, rejected_iff_lost h hrefuses⟩
  obtain ⟨k, rfl, hreach, hstop, hall⟩ := (returned_iff h.connected).mp hst
  obtain ⟨got, rest, hread⟩ :=
    sifted_reached h @htrans hirrefl hsorted hreach fun j hj hlost =>
      not_passes_of_lost hrefuses hlost (hall j hj)
  obtain ⟨hgot, hseen, hstays⟩ := hread.keeps.done (hsorted k) hread.behind.suffix
  exact ⟨k, got ++ rest, hread.ended h hstop fun j hj => (hall j hj).clean, hgot, hseen, hstays⟩

end

variable {H : Nat → Entries}

theorem growingConnection_refuses : Refuses (fun k _ => H k) (growingConnection H) := by
  intro k rpc q name hq hcursor hgone
  obtain ⟨pagingInfo, hpaging, hname⟩ := Option.bind_eq_some_iff.mp hcursor
  refine ⟨_, growingResponse H k pagingInfo, rfl, by simp [hq, hpaging], ?_⟩
  have hdrop : ((H k).dropWhile fun e => decide (e.1 ≠ name)) = [] :=
    List.dropWhile_eq_nil_iff.mpr fun e he => decide_eq_true (hgone e he)
  rw [growingResponse, hname, entriesBehind, hdrop]

def earlier (a b : Index) : Prop := a.digest.headD 0 < b.digest.headD 0

theorem Arriving.sorted {later : List UInt8} (hsorted : later.Pairwise (· < ·)) (k : Nat) :
    (entries later k).Pairwise fun e e' => earlier e.1 e'.1 := by
  refine List.pairwise_map.mpr ?_
  cases k with
  | zero => exact (by decide : [1, 2, 3].Pairwise fun i j : UInt8 => i < j)
  | succ k => exact hsorted

/-- The call has read the first and the second when these are forgotten. -/
theorem queryHistory_churning_lost : ∃ e, Settles (Arriving.call [3, 4]) (.error e) := by
  have hasks := @Arriving.asks [3, 4] (by decide)
  obtain ⟨_, hrejected⟩ := @queryHistory_churning _ _ _ _ earlier hasks growingConnection_refuses
    (fun hab hbc => UInt8.lt_trans hab hbc) (fun a => UInt8.lt_irrefl _)
    (Arriving.sorted (by decide))
  refine hrejected.mpr ⟨1, fun j hj => ?_, ⟨[2], 0, 0⟩, rfl, by decide⟩
  obtain rfl := Nat.lt_one_iff.mp hj
  obtain ⟨_, _, _, hpage⟩ := @Asks.page _ _ _ 2 0 _ hasks .start
  exact (goesOn_iff_full hasks hpage).mpr (by decide)

end Store
end JsWaku
