import JsWaku.Lib.Walk
import JsWaku.Store.Paging
import JsWaku.Store.Rounds

/-!
# JsWaku.Store.Cycle

A query against a peer whose reply depends on the cursor only.

* `Call.following` — the cursor a query goes on with after the reply to another.
* `Interrupted`    — something besides the replies stops the call.
* `settles_iff_no_cycle` — with finitely many cursors the call settles exactly when it is
  interrupted, or following the cursors never leads back to one.
-/

namespace JsWaku
namespace Store

open Js WhileLoop Walk

/-- What a query with a cursor is answered with, once it is read. -/
abbrev Replies := Option Index → Except Thrown HistoryResponse

def Connection.AnswersBy (connection : Connection) (reply : Replies) : Prop :=
  ∀ k rpc q, rpc.query = some q → (connection.exchange k rpc >>= readReply) =
    reply (q.pagingInfo.bind PagingInfo.cursor)

/-- Decoding `m` does not reject. -/
def Call.passes (c : Call) (m : Proto.WakuMessage) : Bool :=
  match decodeProto c.libs c.rt m c.options.decryptionKeys with
  | .ok _ => true
  | .error _ => false

/-- The cursor of the next query, if there is one. -/
def Call.following (c : Call) (reply : Replies) (cursor : Option Index) : Option (Option Index) :=
  match reply cursor with
  | .error _ => none
  | .ok response =>
    if response.messages ≠ [] ∧ response.messages.all c.passes = true ∧
        shortPage (c.query 0 none) response = false then response.cursor.map some
    else none

/-- The page size cannot be encoded, a stream cannot be opened, or the callback throws. -/
structure Interrupted (c : Call) (connection : Connection) (reply : Replies) : Prop where
  cause : c.options.pageSize.assign 10 = none ∨ (∃ k, Throws (connection.newStream k)) ∨
    ∃ k cursor response batch, walk (c.following reply) none k = some cursor ∧
      reply cursor = .ok response ∧ settle c k response.messages = .ok batch ∧ ¬ c.Hears batch

section

variable {c : Call} {connection : Connection} {reply : Replies} {k : Nat}

theorem passes_iff {m : Proto.WakuMessage} : c.passes m = true ↔ ¬ c.Rejects m := by
  unfold Call.passes Call.Rejects
  cases decodeProto c.libs c.rt m c.options.decryptionKeys with
  | ok _ => simp
  | error e => simp [throws_error]

theorem readAt_eq (hpeer : connection.AnswersBy reply) (k : Nat) (cursor : Option Index) :
    readAt c connection k cursor = (reply cursor).toOption.getD ⟨[], none, 0⟩ := by
  rw [readAt, hpeer k (c.query k cursor) _ rfl]
  rfl

theorem pagesOf_of_reply (hpeer : connection.AnswersBy reply) {response : HistoryResponse}
    (h : reply (cursorAt (pagesOf c connection) k) = .ok response) :
    pagesOf c connection k = response := by
  rw [pagesOf_eq, readAt_eq hpeer, h]
  rfl

/-- A page that is not empty was a reply that could be read. -/
theorem reply_of_goesOn (hpeer : connection.AnswersBy reply)
    (h : GoesOn c (pagesOf c connection) k) :
    reply (cursorAt (pagesOf c connection) k) = .ok (pagesOf c connection k) := by
  have hne := h.messages
  rw [pagesOf_eq, readAt_eq hpeer] at hne ⊢
  cases hreply : reply (cursorAt (pagesOf c connection) k) with
  | ok response => rfl
  | error e =>
    rw [hreply] at hne
    exact absurd rfl hne

theorem following_eq_some {cursor next : Option Index} :
    c.following reply cursor = some next ↔ ∃ response, reply cursor = .ok response ∧
      (response.messages ≠ [] ∧ (∀ m ∈ response.messages, ¬ c.Rejects m) ∧
        shortPage (c.query 0 none) response = false) ∧ response.cursor.map some = some next := by
  unfold Call.following
  cases hreply : reply cursor with
  | error e => simp
  | ok response =>
    have hpasses : response.messages.all c.passes = true ↔
        ∀ m ∈ response.messages, ¬ c.Rejects m := by
      simp only [List.all_eq_true, passes_iff]
    simp only [Except.ok.injEq, exists_eq_left', ← hpasses]
    split
    · rename_i hgo
      exact ⟨fun h => ⟨hgo, h⟩, fun h => h.2⟩
    · rename_i hstop
      exact ⟨fun h => (by cases h), fun h => absurd h.1 hstop⟩

theorem following_iff (hpeer : connection.AnswersBy reply) {next : Option Index} :
    c.following reply (cursorAt (pagesOf c connection) k) = some next ↔
      GoesOn c (pagesOf c connection) k ∧ Clean c (pagesOf c connection) k ∧
        next = cursorAt (pagesOf c connection) (k + 1) := by
  rw [following_eq_some]
  constructor
  · rintro ⟨response, hreply, ⟨hne, hclean, hfull⟩, hnext⟩
    obtain ⟨cursor, hcursor, rfl⟩ := Option.map_eq_some_iff.mp hnext
    rw [← pagesOf_of_reply hpeer hreply] at hne hclean hfull hcursor
    exact ⟨⟨hne, hfull, by rw [hcursor]; rfl⟩, hclean, hcursor.symm⟩
  · rintro ⟨hgo, hclean, rfl⟩
    obtain ⟨cursor, hcursor⟩ := Option.isSome_iff_exists.mp hgo.cursor
    refine ⟨_, reply_of_goesOn hpeer hgo, ⟨hgo.messages, hclean, hgo.full⟩, ?_⟩
    rw [cursorAt, hcursor]
    rfl

theorem walk_iff (hpeer : connection.AnswersBy reply) {cursor : Option Index} :
    walk (c.following reply) none k = some cursor ↔
      (∀ j < k, GoesOn c (pagesOf c connection) j ∧ Clean c (pagesOf c connection) j) ∧
        cursor = cursorAt (pagesOf c connection) k := by
  induction k generalizing cursor with
  | zero => simp [walk, cursorAt, eq_comm]
  | succ k ih =>
    rw [walk, Option.bind_eq_some_iff]
    constructor
    · rintro ⟨mid, hmid, hnext⟩
      obtain ⟨hall, rfl⟩ := ih.mp hmid
      obtain ⟨hgo, hclean, rfl⟩ := (following_iff hpeer).mp hnext
      refine ⟨fun j hj => ?_, rfl⟩
      rcases Nat.lt_succ_iff_lt_or_eq.mp hj with hj | rfl
      · exact hall j hj
      · exact ⟨hgo, hclean⟩
    · rintro ⟨hall, rfl⟩
      obtain ⟨hgo, hclean⟩ := hall k (Nat.lt_succ_self k)
      exact ⟨_, ih.mpr ⟨fun j hj => hall j (Nat.lt_succ_of_lt hj), rfl⟩,
        (following_iff hpeer).mpr ⟨hgo, hclean, rfl⟩⟩

/-! ## The rounds -/

/-- A round that is followed by another goes on and passes. -/
theorem again_inv_pagesOf {st : QueryState}
    (h : Turns (queryTurn c connection) (k + 1) .init st) :
    GoesOn c (pagesOf c connection) k ∧ Passes c connection k := by
  obtain ⟨_, hreach, hpasses⟩ := turns_pagesOf h
  exact ⟨hreach k (Nat.lt_succ_self k), hpasses k (Nat.lt_succ_self k)⟩

theorem settles_of_interrupted
    (hconn : connectionFor c.chance c.store.libp2p c.options.peerId = .ok connection)
    (hpeer : connection.AnswersBy reply) (h : Interrupted c connection reply) :
    ∃ r, Settles c r := by
  simp only [settles_iff_ends hconn]
  refine ends_iff_bounded.mpr ?_
  rcases h.cause with hsize | ⟨k, hstream⟩ | ⟨k, cursor, response, batch, hwalk, hreply, hsettle,
    hdeaf⟩
  · refine ⟨1, fun st hturns => ?_⟩
    have hencodes := (again_inv_pagesOf hturns).2.encodes
    rw [Call.query, createQuery, HistoryRPC.encodes] at hencodes
    have hnone : (c.params (cursorAt (pagesOf c connection) 0)).pageSize = none := hsize
    simp [Params.query, hnone] at hencodes
  · refine ⟨k + 1, fun st hturns => ?_⟩
    rw [(again_inv_pagesOf hturns).2.newStream] at hstream
    exact not_throws_ok _ hstream
  · refine ⟨k + 1, fun st hturns => ?_⟩
    obtain ⟨_, rfl⟩ := (walk_iff hpeer).mp hwalk
    have hpage := pagesOf_of_reply hpeer hreply
    obtain ⟨hgo, hpasses⟩ := again_inv_pagesOf hturns
    have hheard := hpasses.hears hgo.messages
    rw [pageMessages, hpage, hsettle] at hheard
    exact hdeaf hheard

/-- Without an interruption, pages that all go on keep the call going. -/
theorem turns_forever (hpeer : connection.AnswersBy reply) (h : ¬ Interrupted c connection reply)
    (hall : ∀ j, GoesOn c (pagesOf c connection) j ∧ Clean c (pagesOf c connection) j) (k : Nat) :
    Turns (queryTurn c connection) k .init (stateAt c (pagesOf c connection) k) := by
  have hreach : ∀ k, Reached c (pagesOf c connection) k := fun _ j _ => (hall j).1
  have hreplies : ∀ k, reply (cursorAt (pagesOf c connection) k) = .ok (pagesOf c connection k) :=
    fun k => reply_of_goesOn hpeer (hall k).1
  obtain ⟨n, hn⟩ : ∃ n, c.options.pageSize.assign 10 = some n := by
    rw [← Option.isSome_iff_exists, Option.isSome_iff_ne_none]
    exact fun hnone => h ⟨.inl hnone⟩
  have hstream : ∀ k, connection.newStream k = .ok () := by
    intro k
    rcases throws_or_ok (connection.newStream k) with hthrows | ⟨_, hok⟩
    · exact absurd ⟨.inr (.inl ⟨k, hthrows⟩)⟩ h
    · exact hok
  have hears : ∀ k, c.Hears (pageMessages c (pagesOf c connection) k) := by
    intro k
    by_contra hdeaf
    exact h ⟨.inr (.inr ⟨k, _, _, _, (walk_iff hpeer).mpr ⟨fun j _ => hall j, rfl⟩, hreplies k,
      settle_clean (hall k).2, hdeaf⟩)⟩
  refine turns_of_passes (hreach k) fun j _ => ?_
  have hread := hpeer j (c.query j (cursorAt (pagesOf c connection) j)) _ rfl
  obtain ⟨rpc, hrpc, hread⟩ := bind_eq_ok (hread.trans (hreplies j))
  obtain ⟨hresponse, herror⟩ := readReply_ok_iff.mp hread
  exact ⟨hstream j, createQuery_encodes hn, ⟨rpc, hrpc, hresponse⟩, herror, (hall j).2,
    fun _ => hears j⟩

theorem not_settles_of_forever
    (hconn : connectionFor c.chance c.store.libp2p c.options.peerId = .ok connection)
    (hpeer : connection.AnswersBy reply) (h : ¬ Interrupted c connection reply)
    (hforever : ∀ k, (walk (c.following reply) none k).isSome) : ¬ ∃ r, Settles c r := by
  have hall : ∀ j, GoesOn c (pagesOf c connection) j ∧ Clean c (pagesOf c connection) j := by
    intro j
    obtain ⟨cursor, hwalk⟩ := Option.isSome_iff_exists.mp (hforever (j + 1))
    exact ((walk_iff hpeer).mp hwalk).1 j (Nat.lt_succ_self j)
  intro hsettles
  simp only [settles_iff_ends hconn] at hsettles
  obtain ⟨n, hn⟩ := ends_iff_bounded.mp hsettles
  exact hn _ (turns_forever hpeer h hall n)

theorem settles_of_walk_end
    (hconn : connectionFor c.chance c.store.libp2p c.options.peerId = .ok connection)
    (hpeer : connection.AnswersBy reply) (hend : ¬ (walk (c.following reply) none k).isSome) :
    ∃ r, Settles c r := by
  simp only [settles_iff_ends hconn]
  refine ends_iff_bounded.mpr ⟨k, fun st hturns => hend ?_⟩
  obtain ⟨_, hreach, hpasses⟩ := turns_pagesOf hturns
  rw [(walk_iff hpeer).mpr ⟨fun j hj => ⟨hreach j hj, (hpasses j hj).clean⟩, rfl⟩]
  rfl

theorem settles_iff_no_cycle
    (hconn : connectionFor c.chance c.store.libp2p c.options.peerId = .ok connection)
    (hpeer : connection.AnswersBy reply)
    (hfinite : {cursor | ∃ asked response, reply asked = .ok response ∧
      response.cursor = some cursor}.Finite) :
    (∃ r, Settles c r) ↔ ¬ Revisits (c.following reply) none ∨ Interrupted c connection reply := by
  have hplaces : {next | ∃ cursor, c.following reply cursor = some next}.Finite := by
    refine (hfinite.image some).subset ?_
    rintro next ⟨asked, hnext⟩
    obtain ⟨response, hreply, _, hnext⟩ := following_eq_some.mp hnext
    obtain ⟨cursor, hcursor, rfl⟩ := Option.map_eq_some_iff.mp hnext
    exact ⟨cursor, ⟨asked, response, hreply, hcursor⟩, rfl⟩
  rw [← walk_forever_iff hplaces]
  constructor
  · intro hsettles
    by_contra hneither
    obtain ⟨hforever, hinterrupted⟩ := not_or.mp hneither
    exact not_settles_of_forever hconn hpeer hinterrupted (not_not.mp hforever) hsettles
  · rintro (hends | hinterrupted)
    · obtain ⟨k, hend⟩ := not_forall.mp hends
      exact settles_of_walk_end hconn hpeer hend
    · exact settles_of_interrupted hconn hpeer hinterrupted

end

namespace SameCursor

def cursor : Index := ⟨[], 0, 0⟩

def response : HistoryResponse := ⟨[Three.message 1], some ⟨some 1, some cursor, 0⟩, 0⟩

def reply : Replies := fun _ => .ok response

def connection : Connection where
  newStream _ := .ok ()
  exchange _ rpc := .ok ⟨rpc.requestId, none, some response⟩

def libp2p : Libp2p := ⟨[⟨"store", [storeCodec]⟩], fun _ => some connection⟩

/-- One message to a page, so that every page is full. -/
def call : Call :=
  { Three.call with
    store := .new libp2p none
    options := { QueryOptions.none with pageSize := .value 1 } }

theorem connects :
    connectionFor call.chance call.store.libp2p call.options.peerId = .ok connection := rfl

theorem answersBy : connection.AnswersBy reply := fun _ _ _ _ => rfl

theorem cursors_finite : {cursor | ∃ asked response, reply asked = .ok response ∧
    response.cursor = some cursor}.Finite := by
  refine (Set.finite_singleton cursor).subset ?_
  rintro _ ⟨_, _, hreply, hcursor⟩
  cases hreply
  cases hcursor
  rfl

theorem not_interrupted : ¬ Interrupted call connection reply := by
  rintro ⟨hsize | ⟨_, hstream⟩ | ⟨_, _, _, _, _, _, _, hdeaf⟩⟩
  · cases hsize
  · exact not_throws_ok _ hstream
  · refine hdeaf ?_
    rintro _ ⟨⟩

theorem revisits : Revisits (call.following reply) none :=
  ⟨1, 2, some cursor, by decide, rfl, rfl⟩

end SameCursor

namespace NoCursor

/-- The same page, and no cursor to go on from. -/
def response : HistoryResponse := ⟨[Three.message 1], none, 0⟩

def reply : Replies := fun _ => .ok response

def connection : Connection where
  newStream _ := .ok ()
  exchange _ rpc := .ok ⟨rpc.requestId, none, some response⟩

def call : Call :=
  { SameCursor.call with
    store := .new ⟨[⟨"store", [storeCodec]⟩], fun _ => some connection⟩ none }

theorem connects :
    connectionFor call.chance call.store.libp2p call.options.peerId = .ok connection := rfl

theorem answersBy : connection.AnswersBy reply := fun _ _ _ _ => rfl

theorem cursors_finite : {cursor | ∃ asked response, reply asked = .ok response ∧
    response.cursor = some cursor}.Finite := by
  refine Set.finite_empty.subset ?_
  rintro _ ⟨_, _, hreply, hcursor⟩
  cases hreply
  cases hcursor

theorem following (cursor : Option Index) : call.following reply cursor = none := by
  simp [Call.following, reply, response, HistoryResponse.cursor]

theorem not_revisits : ¬ Revisits (call.following reply) none := by
  rintro ⟨i, j, x, hlt, _, hj⟩
  obtain ⟨j, rfl⟩ := Nat.exists_eq_add_of_lt hlt
  rw [walk, Option.bind_eq_some_iff] at hj
  obtain ⟨y, _, hnext⟩ := hj
  rw [following] at hnext
  cases hnext

end NoCursor

theorem settles_iff_no_cycle_same_cursor :
    ((∃ r, Settles SameCursor.call r) ↔ ¬ Revisits (SameCursor.call.following SameCursor.reply) none ∨
      Interrupted SameCursor.call SameCursor.connection SameCursor.reply) ∧
      ∃ r, Settles NoCursor.call r :=
  ⟨settles_iff_no_cycle SameCursor.connects SameCursor.answersBy SameCursor.cursors_finite,
    (settles_iff_no_cycle NoCursor.connects NoCursor.answersBy NoCursor.cursors_finite).mpr
      (.inl NoCursor.not_revisits)⟩

/-- The call sends queries for ever. -/
theorem same_cursor_never_settles :
    SameCursor.connection.AnswersBy SameCursor.reply ∧
      {cursor | ∃ asked response, SameCursor.reply asked = .ok response ∧
        response.cursor = some cursor}.Finite ∧
      ¬ ∃ r, Settles SameCursor.call r :=
  ⟨SameCursor.answersBy, SameCursor.cursors_finite,
    not_settles_of_forever SameCursor.connects SameCursor.answersBy SameCursor.not_interrupted
      (walk_forever_of_revisits SameCursor.revisits)⟩

end Store
end JsWaku
