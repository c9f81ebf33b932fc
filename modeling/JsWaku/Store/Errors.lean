import JsWaku.Store.Isolation
import JsWaku.Store.Rounds

/-!
# JsWaku.Store.Errors

What becomes of the error codes in the replies to a query.

* `ReadsError` — one of the replies a returned call has read carries an error code.
* `EndsAt`     — the page a call returns with, and nothing on the way to it throws.
* `returns_without_error_iff` — a call that returns has read no error, exactly when none of the
  replies up to that page carries a code the client does not know.
-/

namespace JsWaku
namespace Store

open Js

/-- The reply to one of the queries that were sent carries an error code. -/
def ReadsError (connection : Connection) (st : QueryState) : Prop :=
  ∃ j query reply response, st.queries[j]? = some query ∧ connection.exchange j query = .ok reply ∧
    reply.response = some response ∧ response.error ≠ errorNoneUnspecified

/-- A code the enumeration does not name. -/
def UnknownError (error : Int) : Prop :=
  error ≠ errorNoneUnspecified ∧ error ≠ errorInvalidCursor

structure EndsAt (c : Call) (connection : Connection) (k : Nat) : Prop where
  reached : Reached c (pagesOf c connection) k
  last : ¬ GoesOn c (pagesOf c connection) k
  passes : ∀ j ≤ k, Passes c connection j

section

variable {c : Call} {connection : Connection} {k : Nat}

/-- The replies a returned call has read are its pages. -/
theorem readsError_lastState (hpasses : ∀ j ≤ k, Passes c connection j) :
    ReadsError connection (lastState c (pagesOf c connection) k) ↔
      ∃ j ≤ k, (pagesOf c connection j).error ≠ errorNoneUnspecified := by
  rw [ReadsError, lastState_queries]
  simp only [queriesUpTo_getElem?_iff, Nat.lt_succ_iff]
  constructor
  · rintro ⟨j, query, reply, response, ⟨hj, rfl⟩, hreply, hresponse, herror⟩
    obtain ⟨reply', hreply', hresponse'⟩ := (hpasses j hj).reply
    rw [hreply] at hreply'
    cases hreply'
    rw [hresponse] at hresponse'
    cases hresponse'
    exact ⟨j, hj, herror⟩
  · rintro ⟨j, hj, herror⟩
    obtain ⟨reply, hreply, hresponse⟩ := (hpasses j hj).reply
    exact ⟨j, _, reply, _, ⟨hj, rfl⟩, hreply, hresponse, herror⟩

/-- The one known code makes the round fail. -/
theorem Passes.unknownError_iff (h : Passes c connection k) :
    UnknownError (pagesOf c connection k).error ↔
      (pagesOf c connection k).error ≠ errorNoneUnspecified :=
  and_iff_left h.error

theorem returns_without_error_iff
    (hconn : connectionFor c.chance c.store.libp2p c.options.peerId = .ok connection) :
    (∀ st, Settles c (.ok st) → ¬ ReadsError connection st) ↔
      ∀ k, EndsAt c connection k → ∀ j ≤ k, ¬ UnknownError (pagesOf c connection j).error := by
  constructor
  · intro h k hends j hj hunknown
    have hst := (returned_iff hconn).mpr ⟨k, rfl, hends.reached, hends.last, hends.passes⟩
    have herror := (hends.passes j hj).unknownError_iff.mp hunknown
    exact h _ hst ((readsError_lastState hends.passes).mpr ⟨j, hj, herror⟩)
  · intro h st hst hreads
    obtain ⟨k, rfl, hreach, hstop, hpasses⟩ := (returned_iff hconn).mp hst
    obtain ⟨j, hj, herror⟩ := (readsError_lastState hpasses).mp hreads
    have hunknown := (hpasses j hj).unknownError_iff.mpr herror
    exact h k ⟨hreach, hstop, hpasses⟩ j hj hunknown

end

namespace Reporting

def pages (error : Int) (_ : Nat) : HistoryResponse := ⟨[], none, error⟩

def call (error : Int) : Call := Three.call.over (pages error)

end Reporting

theorem returns_without_error_none :
    (∀ st, Settles (Reporting.call 0) (.ok st) →
        ¬ ReadsError (pageConnection (Reporting.pages 0)) st) ↔
      ∀ k, EndsAt (Reporting.call 0) (pageConnection (Reporting.pages 0)) k → ∀ j ≤ k,
        ¬ UnknownError (pagesOf (Reporting.call 0) (pageConnection (Reporting.pages 0)) j).error :=
  returns_without_error_iff rfl

/-- Whatever the peer means by code 2, the call returns with what it has, which is nothing. -/
theorem unknown_error_returns :
    ∃ st, Settles (Reporting.call 2) (.ok st) ∧ st.messages = [] ∧
      ReadsError (pageConnection (Reporting.pages 2)) st := by
  refine ⟨⟨[], [], [(Reporting.call 2).query 0 none], none⟩, ⟨1, rfl⟩, rfl, ?_⟩
  exact ⟨0, _, _, Reporting.pages 2 0, rfl, rfl, rfl, by decide⟩

end Store
end JsWaku
