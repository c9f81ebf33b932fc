import JsWaku.Store.Replay

/-!
# JsWaku.Store.Rounds

The rounds of a query against any peer, whatever it replies and wherever it fails.

* `Passes`        — nothing on a round throws.
* `queryTurn_ok`  — everything a round that does not throw has done.
* `turns_pagesOf` — a round is entered in the state the pages so far account for.
* `returned_iff`, `rejected_iff` — a call returns exactly by passing every round up to a page that
  ends it, and rejects at the first round it does not pass.
* `settles_ok_iff`, `settles_error_iff` — the same over replies known in advance: only a message
  whose decode rejects is in the way.
-/

namespace JsWaku
namespace Store

open Js WhileLoop

/-- Round `k` gets its page, decodes it and hands it on. -/
structure Passes (c : Call) (connection : Connection) (k : Nat) : Prop where
  newStream : connection.newStream k = .ok ()
  encodes : (c.query k (cursorAt (pagesOf c connection) k)).encodes = .ok ()
  reply : ∃ rpc, connection.exchange k (c.query k (cursorAt (pagesOf c connection) k)) = .ok rpc ∧
    rpc.response = some (pagesOf c connection k)
  error : (pagesOf c connection k).error ≠ errorInvalidCursor
  clean : Clean c (pagesOf c connection) k
  hears : (pagesOf c connection k).messages ≠ [] →
    c.Hears (pageMessages c (pagesOf c connection) k)

section

variable {c : Call} {connection : Connection} {k : Nat} {st st' : QueryState}

theorem push_ok {batch : List WakuMessage} (h : st.push c.options.callback batch = .ok st') :
    st' = c.pushed st batch := by
  unfold QueryState.push at h
  unfold Call.pushed
  cases hcb : c.options.callback with
  | none =>
    rw [hcb] at h
    cases h
    rfl
  | some callback =>
    rw [hcb] at h
    obtain ⟨_, _, h⟩ := bind_eq_ok h
    cases h
    rfl

theorem turnAfter_again {rpc : HistoryRPC} {response : HistoryResponse}
    (h : turnAfter rpc response st = .again st') :
    ∃ cursor, response.cursor = some cursor ∧ st' = { st with cursor := some cursor } := by
  unfold turnAfter at h
  split at h
  · cases h
  · split at h
    · cases h
    · rename_i cursor hcursor
      cases h
      exact ⟨cursor, hcursor, rfl⟩

theorem turnAfter_stop {rpc : HistoryRPC} {response : HistoryResponse}
    (h : turnAfter rpc response st = .stop st') : st' = st := by
  unfold turnAfter at h
  split at h
  · cases h
    rfl
  · split at h
    · cases h
      rfl
    · cases h

theorem clean_of_settle {pages : Nat → HistoryResponse} {batch : List WakuMessage}
    (h : settle c k (pages k).messages = .ok batch) : Clean c pages k := by
  intro m hm hrejects
  have hthrows : Throws (settle c k (pages k).messages) := throws_settle.mpr ⟨m, hm, hrejects⟩
  rw [h] at hthrows
  exact not_throws_ok _ hthrows

theorem readPage_pagesOf {response : HistoryResponse}
    (h : readPage c connection (stateAt c (pagesOf c connection) k) = .ok response) :
    response = pagesOf c connection k := by
  obtain ⟨_, _, h⟩ := bind_eq_ok h
  obtain ⟨_, _, h⟩ := bind_eq_ok h
  rw [stateAt_queries_length, stateAt_cursor] at h
  rw [pagesOf_eq, readAt, h]
  rfl

theorem hears_of_push {batch : List WakuMessage} (h : st.push c.options.callback batch = .ok st') :
    c.Hears batch := by
  intro callback hcb
  unfold QueryState.push at h
  rw [hcb] at h
  obtain ⟨_, hcall, _⟩ := bind_eq_ok h
  exact hcall

/-- Everything a round that does not throw has done. -/
theorem queryTurn_ok {turn : Turn QueryState}
    (h : queryTurn c connection (stateAt c (pagesOf c connection) k) = .ok turn) :
    Passes c connection k ∧
      turn = if (pagesOf c connection k).messages = [] then
          .stop (lastState c (pagesOf c connection) k)
        else turnAfter (c.query k (cursorAt (pagesOf c connection) k)) (pagesOf c connection k)
          (lastState c (pagesOf c connection) k) := by
  rw [queryTurn_eq] at h
  obtain ⟨response, hread, h⟩ := bind_eq_ok h
  cases readPage_pagesOf hread
  obtain ⟨_, hstream, hread⟩ := bind_eq_ok hread
  obtain ⟨_, hencodes, hread⟩ := bind_eq_ok hread
  obtain ⟨rpc, hreply, hread⟩ := bind_eq_ok hread
  obtain ⟨hresponse, herror⟩ := readReply_ok_iff.mp hread
  simp only [stateAt_queries_length, stateAt_cursor] at h hstream hencodes hreply
  unfold lastState
  rw [queriesUpTo_succ]
  by_cases hne : (pagesOf c connection k).messages = []
  · simp only [hne, ite_true] at h ⊢
    cases h
    exact ⟨⟨hstream, hencodes, ⟨rpc, hreply, hresponse⟩, herror, by simp [Clean, hne],
      absurd hne⟩, rfl⟩
  · simp only [hne, ite_false] at h ⊢
    obtain ⟨batch, hsettle, h⟩ := bind_eq_ok h
    obtain ⟨st', hpush, h⟩ := bind_eq_ok h
    have hbatch : pageMessages c (pagesOf c connection) k = batch := by
      rw [pageMessages, hsettle]
      rfl
    refine ⟨⟨hstream, hencodes, ⟨rpc, hreply, hresponse⟩, herror, clean_of_settle hsettle,
      fun _ => ?_⟩, ?_⟩
    · rw [hbatch]
      exact hears_of_push hpush
    · cases push_ok hpush
      cases h
      rw [hbatch]
      rfl

theorem queryTurn_of_passes (h : Passes c connection k) :
    ∃ turn, queryTurn c connection (stateAt c (pagesOf c connection) k) = .ok turn := by
  obtain ⟨rpc, hreply, hresponse⟩ := h.reply
  have hread : readPage c connection (stateAt c (pagesOf c connection) k) =
      .ok (pagesOf c connection k) := by
    simp only [readPage, stateAt_queries_length, stateAt_cursor, h.newStream, h.encodes, hreply,
      readReply_ok_iff.mpr ⟨hresponse, h.error⟩, ok_bind]
  rw [queryTurn_eq, hread, ok_bind]
  by_cases hne : (pagesOf c connection k).messages = []
  · exact ⟨_, by simp only [hne, ite_true]; rfl⟩
  · simp only [hne, ite_false, stateAt_queries_length, settle_clean h.clean, ok_bind,
      push_heard (h.hears hne)]
    exact ⟨_, rfl⟩

theorem again_pagesOf
    (h : queryTurn c connection (stateAt c (pagesOf c connection) k) = .ok (.again st)) :
    Passes c connection k ∧ st = stateAt c (pagesOf c connection) (k + 1) := by
  obtain ⟨hpasses, hturn⟩ := queryTurn_ok h
  refine ⟨hpasses, ?_⟩
  split at hturn
  · cases hturn
  · rename_i hne
    obtain ⟨cursor, hcursor, rfl⟩ := turnAfter_again hturn.symm
    exact lastState_cursor hne hcursor

theorem stop_pagesOf
    (h : queryTurn c connection (stateAt c (pagesOf c connection) k) = .ok (.stop st)) :
    Passes c connection k ∧ st = lastState c (pagesOf c connection) k := by
  obtain ⟨hpasses, hturn⟩ := queryTurn_ok h
  refine ⟨hpasses, ?_⟩
  split at hturn
  · cases hturn
    rfl
  · exact turnAfter_stop hturn.symm

/-- A round that does not throw goes round again exactly when its page says so. -/
theorem goesOn_iff_again {turn : Turn QueryState}
    (h : queryTurn c connection (stateAt c (pagesOf c connection) k) = .ok turn) :
    GoesOn c (pagesOf c connection) k ↔ ∃ st, turn = .again st := by
  obtain ⟨_, rfl⟩ := queryTurn_ok h
  constructor
  · intro hgo
    obtain ⟨cursor, hcursor⟩ := Option.isSome_iff_exists.mp hgo.cursor
    exact ⟨_, by rw [if_neg hgo.messages, turnAfter, hgo.full, hcursor]; rfl⟩
  · rintro ⟨st, hst⟩
    split at hst
    · cases hst
    · rename_i hne
      unfold turnAfter at hst
      split at hst
      · cases hst
      · rename_i hfull
        split at hst
        · cases hst
        · rename_i cursor hcursor
          exact ⟨hne, by simpa using hfull, by rw [hcursor]; rfl⟩

theorem turns_pagesOf (h : Turns (queryTurn c connection) k .init st) :
    st = stateAt c (pagesOf c connection) k ∧ Reached c (pagesOf c connection) k ∧
      ∀ j < k, Passes c connection j := by
  have hinv := @Turns.invariant QueryState Thrown (queryTurn c connection)
    (fun k st => st = stateAt c (pagesOf c connection) k ∧ Reached c (pagesOf c connection) k ∧
      ∀ j < k, Passes c connection j)
    0 k .init st ?_ h ⟨stateAt_zero.symm, by intro j hj; omega, by intro j hj; omega⟩
  · rwa [Nat.zero_add] at hinv
  · rintro k _ st' ⟨rfl, hreach, hbefore⟩ hstep
    have hgo := (goesOn_iff_again hstep).mpr ⟨st', rfl⟩
    obtain ⟨hpasses, rfl⟩ := again_pagesOf hstep
    refine ⟨rfl, fun j hj => ?_, fun j hj => ?_⟩
    · rcases Nat.lt_succ_iff_lt_or_eq.mp hj with hj | rfl
      · exact hreach j hj
      · exact hgo
    · rcases Nat.lt_succ_iff_lt_or_eq.mp hj with hj | rfl
      · exact hbefore j hj
      · exact hpasses

theorem returned_inv
    (hconn : connectionFor c.chance c.store.libp2p c.options.peerId = .ok connection)
    (h : Settles c (.ok st)) :
    ∃ k, st = lastState c (pagesOf c connection) k ∧ Reached c (pagesOf c connection) k ∧
      ¬ GoesOn c (pagesOf c connection) k ∧ ∀ j ≤ k, Passes c connection j := by
  obtain ⟨k, s', hturns, hend⟩ := ((settles_iff_ends hconn).mp h).split
  obtain ⟨rfl, hreach, hbefore⟩ := turns_pagesOf hturns
  rcases hend with ⟨_, hstop, hst⟩ | ⟨_, _, hst⟩
  · cases hst
    obtain ⟨hpasses, hlast⟩ := stop_pagesOf hstop
    refine ⟨k, hlast, hreach, ?_, fun j hj => ?_⟩
    · rw [goesOn_iff_again hstop]
      rintro ⟨_, hst⟩
      cases hst
    · rcases Nat.lt_or_eq_of_le hj with hj | rfl
      · exact hbefore j hj
      · exact hpasses
  · cases hst

theorem turns_of_passes (hreach : Reached c (pagesOf c connection) k)
    (hpasses : ∀ j < k, Passes c connection j) :
    Turns (queryTurn c connection) k .init (stateAt c (pagesOf c connection) k) := by
  rw [← @stateAt_zero c (pagesOf c connection)]
  refine Turns.of_trace fun j hj => ?_
  obtain ⟨turn, hturn⟩ := queryTurn_of_passes (hpasses j hj)
  obtain ⟨st, rfl⟩ := (goesOn_iff_again hturn).mp (hreach j hj)
  rwa [(again_pagesOf hturn).2] at hturn

/-- A call returns exactly by passing every round up to a page that ends it. -/
theorem returned_iff
    (hconn : connectionFor c.chance c.store.libp2p c.options.peerId = .ok connection) :
    Settles c (.ok st) ↔ ∃ k, st = lastState c (pagesOf c connection) k ∧
      Reached c (pagesOf c connection) k ∧ ¬ GoesOn c (pagesOf c connection) k ∧
      ∀ j ≤ k, Passes c connection j := by
  constructor
  · exact returned_inv hconn
  · rintro ⟨k, rfl, hreach, hstop, hpasses⟩
    rw [settles_iff_ends hconn]
    refine (turns_of_passes hreach fun j hj => hpasses j (Nat.le_of_lt hj)).ends (.stop ?_)
    obtain ⟨turn, hturn⟩ := queryTurn_of_passes (hpasses k (Nat.le_refl k))
    cases turn with
    | again st' => exact absurd ((goesOn_iff_again hturn).mpr ⟨st', rfl⟩) hstop
    | stop st' => rwa [(stop_pagesOf hturn).2] at hturn

/-- A call rejects exactly at the first round it does not pass. -/
theorem rejected_iff
    (hconn : connectionFor c.chance c.store.libp2p c.options.peerId = .ok connection) :
    (∃ e, Settles c (.error e)) ↔ ∃ k, Reached c (pagesOf c connection) k ∧
      (∀ j < k, Passes c connection j) ∧ ¬ Passes c connection k := by
  simp only [settles_iff_ends hconn]
  constructor
  · rintro ⟨e, h⟩
    obtain ⟨k, s', hturns, hend⟩ := h.split
    obtain ⟨rfl, hreach, hbefore⟩ := turns_pagesOf hturns
    refine ⟨k, hreach, hbefore, fun hpasses => ?_⟩
    obtain ⟨turn, hturn⟩ := queryTurn_of_passes hpasses
    rcases hend with ⟨_, _, hst⟩ | ⟨_, hthrow, _⟩
    · cases hst
    · rw [hturn] at hthrow
      cases hthrow
  · rintro ⟨k, hreach, hbefore, hfails⟩
    rcases throws_or_ok (queryTurn c connection (stateAt c (pagesOf c connection) k)) with
      ⟨e, he⟩ | ⟨turn, hturn⟩
    · exact ⟨e, (turns_of_passes hreach hbefore).ends (.throws he)⟩
    · exact absurd (queryTurn_ok hturn).1 hfails

/-- A page that does not go on ends the call, if nothing before it has. -/
theorem settles_of_not_goesOn
    (hconn : connectionFor c.chance c.store.libp2p c.options.peerId = .ok connection)
    (hstop : ¬ GoesOn c (pagesOf c connection) k) : ∃ r, Settles c r := by
  simp only [settles_iff_ends hconn]
  refine ends_iff_bounded.mpr ⟨k + 1, fun st hturns => ?_⟩
  exact hstop ((turns_pagesOf hturns).2.1 k (Nat.lt_succ_self k))

/-- A call returns at the first page that does not go on. -/
theorem returned_at
    (hconn : connectionFor c.chance c.store.libp2p c.options.peerId = .ok connection)
    (hreach : Reached c (pagesOf c connection) k) (hstop : ¬ GoesOn c (pagesOf c connection) k)
    (h : Settles c (.ok st)) :
    st = lastState c (pagesOf c connection) k ∧ ∀ j ≤ k, Clean c (pagesOf c connection) j := by
  obtain ⟨k', hst, hreach', hstop', hpasses⟩ := returned_inv hconn h
  have hk : k' = k := by
    rcases Nat.lt_trichotomy k' k with hlt | heq | hlt
    · exact absurd (hreach k' hlt) hstop'
    · exact heq
    · exact absurd (hreach' k hlt) hstop
  subst hk
  exact ⟨hst, fun j hj => (hpasses j hj).clean⟩

end

/-! ## Replies known in advance -/

section

variable {c : Call} {connection : Connection} {pages : Nat → HistoryResponse} {k : Nat}

/-- As far as they are asked for, the replies are the pages. -/
theorem pagesOf_of_replays (hr : Replays c pages connection) (hk : Reached c pages k) :
    cursorAt (pagesOf c connection) k = cursorAt pages k ∧ pagesOf c connection k = pages k := by
  have hreply : ∀ j ≤ k, cursorAt (pagesOf c connection) j = cursorAt pages j →
      pagesOf c connection j = pages j := by
    intro j hj hcursor
    obtain ⟨rpc, hrpc, hread⟩ := hr.reply j fun i hi => hk i (Nat.lt_of_lt_of_le hi hj)
    rw [pagesOf_eq, hcursor, readAt, hrpc, ok_bind, hread]
    rfl
  induction k with
  | zero => exact ⟨rfl, hreply 0 (Nat.le_refl 0) rfl⟩
  | succ k ih =>
    obtain ⟨_, hpage⟩ := ih (fun j hj => hk j (Nat.lt_succ_of_lt hj))
      fun j hj => hreply j (Nat.le_succ_of_le hj)
    have hcursor : cursorAt (pagesOf c connection) (k + 1) = cursorAt pages (k + 1) := by
      rw [cursorAt, cursorAt, hpage]
    exact ⟨hcursor, hreply (k + 1) (Nat.le_refl _) hcursor⟩

theorem goesOn_of_replays (hr : Replays c pages connection) (hk : Reached c pages k) :
    GoesOn c (pagesOf c connection) k ↔ GoesOn c pages k := by
  obtain ⟨hcursor, hpage⟩ := pagesOf_of_replays hr hk
  constructor
  · rintro ⟨hmessages, hfull, hnext⟩
    rw [hpage] at hmessages hnext
    rw [hpage, hcursor] at hfull
    exact ⟨hmessages, hfull, hnext⟩
  · rintro ⟨hmessages, hfull, hnext⟩
    rw [← hpage] at hmessages hnext
    rw [← hpage, ← hcursor] at hfull
    exact ⟨hmessages, hfull, hnext⟩

theorem reached_of_replays (hr : Replays c pages connection) :
    Reached c (pagesOf c connection) k ↔ Reached c pages k := by
  constructor
  · intro h j hj
    induction j using Nat.strongRecOn with
    | ind j ih =>
      have hreach : Reached c pages j := fun i hi => ih i hi (Nat.lt_trans hi hj)
      exact (goesOn_of_replays hr hreach).mp (h j hj)
  · intro h j hj
    have hreach : Reached c pages j := fun i hi => h i (Nat.lt_trans hi hj)
    exact (goesOn_of_replays hr hreach).mpr (h j hj)

/-- A quiet call passes a round exactly if the page is clean. -/
theorem passes_of_replays (hr : Replays c pages connection) (hq : c.Quiet)
    (hk : Reached c pages k) : Passes c connection k ↔ Clean c pages k := by
  obtain ⟨hcursor, hpage⟩ := pagesOf_of_replays hr hk
  constructor
  · intro h
    have hclean := h.clean
    unfold Clean at hclean
    rwa [hpage] at hclean
  · intro hclean
    obtain ⟨n, hn⟩ := hr.pageSize
    obtain ⟨rpc, hrpc, hread⟩ := hr.reply k hk
    obtain ⟨hresponse, herror⟩ := readReply_ok_iff.mp hread
    rw [← hcursor] at hrpc
    rw [← hpage] at hresponse herror
    refine ⟨hr.newStream k hk, createQuery_encodes hn, ⟨rpc, hrpc, hresponse⟩, herror, ?_,
      fun _ => hq.hears _⟩
    unfold Clean
    rwa [hpage]

theorem lastState_of_replays (hr : Replays c pages connection) (hk : Reached c pages k) :
    lastState c (pagesOf c connection) k = lastState c pages k := by
  have hpages : ∀ j ≤ k, cursorAt (pagesOf c connection) j = cursorAt pages j ∧
      pagesOf c connection j = pages j := fun j hj =>
    pagesOf_of_replays hr fun i hi => hk i (Nat.lt_of_lt_of_le hi hj)
  have hbatch : ∀ j ≤ k, pageMessages c (pagesOf c connection) j = pageMessages c pages j := by
    intro j hj
    rw [pageMessages, pageMessages, (hpages j hj).2]
  have hqueries : queriesUpTo c (pagesOf c connection) (k + 1) = queriesUpTo c pages (k + 1) := by
    refine List.map_congr_left fun j hj => ?_
    rw [(hpages j (Nat.le_of_lt_succ (List.mem_range.mp hj))).1]
  have hflat : (List.range k).flatMap (pageMessages c (pagesOf c connection)) =
      (List.range k).flatMap (pageMessages c pages) :=
    List.flatMap_congr fun j hj => hbatch j (Nat.le_of_lt (List.mem_range.mp hj))
  have hmap : (List.range k).map (pageMessages c (pagesOf c connection)) =
      (List.range k).map (pageMessages c pages) :=
    List.map_congr_left fun j hj => hbatch j (Nat.le_of_lt (List.mem_range.mp hj))
  obtain ⟨hcursor, hpage⟩ := hpages k (Nat.le_refl k)
  simp only [lastState, stateAt, hqueries, hflat, hmap, hcursor, hpage, hbatch k (Nat.le_refl k)]

/-- The call returns exactly by reaching a page that ends it, past clean pages only. -/
theorem settles_ok_iff
    (hconn : connectionFor c.chance c.store.libp2p c.options.peerId = .ok connection)
    (hr : Replays c pages connection) (hq : c.Quiet) {st : QueryState} :
    Settles c (.ok st) ↔ ∃ k, Reached c pages k ∧ ¬ GoesOn c pages k ∧
      (∀ j ≤ k, Clean c pages j) ∧ st = lastState c pages k := by
  rw [returned_iff hconn]
  refine exists_congr fun k => ?_
  rw [reached_of_replays hr]
  constructor
  · rintro ⟨rfl, hreach, hstop, hpasses⟩
    rw [goesOn_of_replays hr hreach] at hstop
    refine ⟨hreach, hstop, fun j hj => ?_, lastState_of_replays hr hreach⟩
    exact (passes_of_replays hr hq fun i hi => hreach i (by omega)).mp (hpasses j hj)
  · rintro ⟨hreach, hstop, hclean, rfl⟩
    rw [← goesOn_of_replays hr hreach] at hstop
    refine ⟨(lastState_of_replays hr hreach).symm, hreach, hstop, fun j hj => ?_⟩
    exact (passes_of_replays hr hq fun i hi => hreach i (by omega)).mpr (hclean j hj)

/-- The call rejects exactly by reaching a page with a message whose decode rejects. -/
theorem settles_error_iff
    (hconn : connectionFor c.chance c.store.libp2p c.options.peerId = .ok connection)
    (hr : Replays c pages connection) (hq : c.Quiet) :
    (∃ e, Settles c (.error e)) ↔
      ∃ k, Reached c pages k ∧ (∀ j < k, Clean c pages j) ∧ ¬ Clean c pages k := by
  rw [rejected_iff hconn]
  refine exists_congr fun k => ?_
  rw [reached_of_replays hr]
  refine and_congr_right fun hreach => ?_
  rw [passes_of_replays hr hq hreach]
  refine and_congr_left fun _ => forall₂_congr fun j hj => ?_
  exact passes_of_replays hr hq fun i hi => hreach i (by omega)

end

end Store
end JsWaku
