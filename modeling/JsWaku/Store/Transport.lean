import JsWaku.Store.Paging
import JsWaku.Store.Rounds
import JsWaku.Store.Wire

/-!
# JsWaku.Store.Transport

`queryHistory` over bytes. `JsWaku.Store.QueryHistory` takes a connection to exchange messages; here
the messages go through `encode` and `decode` on both ends.

* `Transport` — a connection that carries bytes; `Transport.connection` is what the call makes of
  it.
* `Transport.Serves` — what comes back is the reply of a peer, in the peer's version of the protocol.
* `settles_serving` — a call then settles as if the messages were exchanged themselves.
* `settles_of_cut` — a call rejects when a reply is cut short on the way.
-/

namespace JsWaku
namespace Store

open Js Js.Protobuf Proto WhileLoop

/-- `pipe` sends the bytes of a query on the `k`-th stream, behind their length, and gives the bytes
that came back. -/
structure Transport where
  newStream : Nat → Except Thrown Unit
  pipe : Nat → Bytes → Except Thrown Bytes

def Transport.connection (strings : StringReader) (t : Transport) : Connection where
  newStream := t.newStream
  exchange k rpc := do
    let bytes ← rpc.encode
    let res ← t.pipe k bytes
    HistoryRPC.decode strings res

/-- A message that comes out of the wire as it went in. -/
structure HistoryRPC.Carried (rpc : HistoryRPC) : Prop where
  settled : rpc.settled = rpc
  written : ∃ b, rpc.Written b

/-- A peer that takes the bytes of a query for the query, and writes its reply with fields of its own
besides the ones of this version. -/
structure Transport.Serves (strings : StringReader) (t : Transport) (peer : Connection) : Prop where
  newStream : t.newStream = peer.newStream
  rejects : ∀ {k rpc b e}, rpc.Carried → rpc.encode = .ok b → peer.exchange k rpc = .error e →
    t.pipe k b = .error e
  replies : ∀ {k rpc b reply}, rpc.Carried → rpc.encode = .ok b → peer.exchange k rpc = .ok reply →
    ∃ r r', reply.encode = .ok r ∧ (HistoryRPC.decoder strings).Extends r r' ∧ t.pipe k b = .ok r'

/-- A cursor that a query to `peer` may go on from. -/
def Offers (peer : Connection) (cursor : Option Index) : Prop :=
  cursor = none ∨ ∃ k rpc reply response, peer.exchange k rpc = .ok reply ∧
    reply.response = some response ∧ response.cursor = cursor

/-- The messages between the call and `peer` can be carried. -/
structure Carries (c : Call) (peer : Connection) : Prop where
  replies : ∀ k rpc reply, peer.exchange k rpc = .ok reply → reply.Carried
  pageSize : ∀ n, c.options.pageSize.assign 10 = some n → n ≤ maxSafeInteger
  small : ∀ page cursor b, Offers peer cursor → (c.query page cursor).encode = .ok b →
    b.length < 2 ^ 32

/-- The call, to a peer behind `connection`. -/
def Call.reaching (c : Call) (connection : Connection) : Call :=
  { c with store := { c.store with libp2p :=
      { c.store.libp2p with connectionManager := fun _ => some connection } } }

section

variable {strings : StringReader} {c : Call} {peer : Connection}

theorem HistoryRPC.Carried.decode {rpc : HistoryRPC} {b : Bytes} (h : rpc.Carried)
    (hb : rpc.encode = .ok b) : HistoryRPC.decode strings b = .ok rpc := by
  obtain ⟨b', hw⟩ := h.written
  obtain rfl : b' = b := Except.ok.inj (hw.encode.symm.trans hb)
  rw [HistoryRPC.decode_encode strings hw, h.settled]

theorem exchange_serving {t : Transport} {k : Nat} {rpc : HistoryRPC} (ht : t.Serves strings peer)
    (hrpc : rpc.Carried) (hreplies : ∀ reply, peer.exchange k rpc = .ok reply → reply.Carried) :
    (t.connection strings).exchange k rpc = peer.exchange k rpc := by
  obtain ⟨b, hw⟩ := hrpc.written
  simp only [Transport.connection, hw.encode, ok_bind]
  cases hexchange : peer.exchange k rpc with
  | error e => simp only [ht.rejects hrpc hw.encode hexchange, error_bind]
  | ok reply =>
    obtain ⟨r, r', hr, hextends, hpipe⟩ := ht.replies hrpc hw.encode hexchange
    simp only [hpipe, ok_bind, HistoryRPC.decode, Decoder.extends_decode hextends]
    exact (hreplies reply hexchange).decode hr

/-- The cursor of a message that can be carried has no negative zero in it. -/
theorem HistoryRPC.Carried.cursor {rpc : HistoryRPC} {response : HistoryResponse} {cursor : Index}
    (h : rpc.Carried) (hresponse : rpc.response = some response)
    (hcursor : response.cursor = some cursor) : cursor.settled = cursor := by
  have hsettled := congrArg HistoryRPC.response h.settled
  simp only [HistoryRPC.settled, hresponse, Option.map_some, Option.some.injEq] at hsettled
  have hpaging := congrArg HistoryResponse.cursor hsettled
  simp only [HistoryResponse.cursor, HistoryResponse.settled] at hpaging hcursor
  cases hp : response.pagingInfo with
  | none => simp [hp] at hcursor
  | some p =>
    simp only [hp, Option.map_some, Option.bind_some, PagingInfo.settled] at hpaging hcursor
    rw [hcursor] at hpaging
    simpa using hpaging

theorem Carries.query (h : Carries c peer) {page : Nat} {cursor : Option Index}
    (hcursor : Offers peer cursor) (hencodes : (c.query page cursor).encodes = .ok ()) :
    (c.query page cursor).Carried := by
  have hwritten := @HistoryRPC.encode_query (c.query page cursor) rfl
  rw [hencodes] at hwritten
  obtain ⟨b, hb, _⟩ := bind_eq_ok hwritten
  have hfits : (c.query page cursor).Fits := by
    refine ⟨?_, by rintro r ⟨⟩⟩
    rintro q ⟨⟩ p ⟨⟩
    refine ⟨fun n hn => h.pageSize n hn, ?_⟩
    show -2 ^ 31 ≤ directionToProto (c.params cursor).direction ∧
      directionToProto (c.params cursor).direction < 2 ^ 31
    rcases (c.params cursor).direction with _ | _ | _ <;> decide
  refine ⟨?_, b, hfits, hb, h.small page cursor b hcursor hb⟩
  · rcases hcursor with rfl | ⟨k, rpc, reply, response, hreply, hresponse, hcur⟩
    · rfl
    · cases cursor with
      | none => rfl
      | some i =>
        have hi := (h.replies k rpc reply hreply).cursor hresponse hcur
        show HistoryRPC.settled (createQuery _ (c.params (some i))) = createQuery _ (c.params (some i))
        simp [HistoryRPC.settled, HistoryQuery.settled, PagingInfo.settled, createQuery,
          Params.query, Call.params, hi]

theorem queryTurn_serving {t : Transport} (h : Carries c peer) (ht : t.Serves strings peer)
    {st : QueryState} (hst : Offers peer st.cursor) :
    queryTurn c (t.connection strings) st = queryTurn c peer st := by
  have hnew : (t.connection strings).newStream = peer.newStream := ht.newStream
  simp only [queryTurn_eq, readPage, hnew]
  congr 1
  refine bind_congr fun _ => ?_
  cases hencodes : (c.query st.queries.length st.cursor).encodes with
  | error e => rfl
  | ok _ =>
    rw [exchange_serving ht (h.query hst hencodes) (h.replies _ _)]

/-- A round goes on from a cursor of the peer. -/
theorem offers_again {st st' : QueryState} (h : queryTurn c peer st = .ok (.again st')) :
    Offers peer st'.cursor := by
  rw [queryTurn_eq] at h
  obtain ⟨response, hread, h⟩ := bind_eq_ok h
  obtain ⟨_, _, hread⟩ := bind_eq_ok hread
  obtain ⟨_, _, hread⟩ := bind_eq_ok hread
  obtain ⟨reply, hreply, hread⟩ := bind_eq_ok hread
  obtain ⟨hresponse, _⟩ := readReply_ok_iff.mp hread
  simp only at h
  split at h
  · cases h
  · obtain ⟨batch, _, h⟩ := bind_eq_ok h
    obtain ⟨st₁, _, h⟩ := bind_eq_ok h
    cases hcursor : response.cursor with
    | none =>
      simp only [turnAfter, hcursor, pure, Except.pure, Except.ok.injEq] at h
      split at h <;> cases h
    | some cursor =>
      simp only [turnAfter, hcursor, pure, Except.pure, Except.ok.injEq] at h
      split at h
      · cases h
      · cases h
        exact .inr ⟨_, _, reply, response, hreply, hresponse, hcursor⟩

/-- What is behind the connection plays no part in getting it. -/
theorem connectionFor_reaching (c : Call) :
    (∃ e, ∀ connection, connectionFor c.chance (c.reaching connection).store.libp2p
        c.options.peerId = .error e) ∨
      ∀ connection, connectionFor c.chance (c.reaching connection).store.libp2p
        c.options.peerId = .ok connection := by
  have hsplit : ∀ connection, connectionFor c.chance (c.reaching connection).store.libp2p
      c.options.peerId = choosePeer c.chance c.store.libp2p c.options.peerId >>=
        connectTo (c.reaching connection).store.libp2p := fun _ => rfl
  simp only [hsplit]
  rcases choosePeer c.chance c.store.libp2p c.options.peerId with e | _ | found
  · exact .inl ⟨e, fun _ => rfl⟩
  · exact .inl ⟨_, fun _ => rfl⟩
  · simp only [ok_bind, connectTo]
    split
    · exact .inr fun _ => rfl
    · exact .inl ⟨_, fun _ => rfl⟩

theorem settles_reaching {connection : Connection} {r : Except Thrown QueryState}
    (hconn : connectionFor c.chance (c.reaching connection).store.libp2p c.options.peerId =
      .ok connection) :
    Settles (c.reaching connection) r ↔ Ends (queryTurn c connection) .init r :=
  settles_iff_ends hconn

theorem settles_serving {t : Transport} (h : Carries c peer) (ht : t.Serves strings peer)
    {r : Except Thrown QueryState} :
    Settles (c.reaching (t.connection strings)) r ↔ Settles (c.reaching peer) r := by
  rcases connectionFor_reaching c with ⟨e, herror⟩ | hok
  · have hrejects : ∀ connection, Settles (c.reaching connection) r ↔ r = .error e := by
      intro connection
      have hquery : ∀ fuel, queryHistory (c.reaching connection) fuel = some (.error e) := by
        intro fuel
        have hconn : connectionFor (c.reaching connection).chance (c.reaching connection).store.libp2p
            (c.reaching connection).options.peerId = .error e := herror connection
        simp only [queryHistory, hconn]
      simp only [Settles, hquery, Option.some.injEq, exists_const, eq_comm]
    rw [hrejects, hrejects]
  · rw [settles_reaching (hok _), settles_reaching (hok _)]
    exact ends_congr (I := fun st => Offers peer st.cursor) (fun st => queryTurn_serving h ht)
      (fun st st' hst hagain => offers_again (by rwa [queryTurn_serving h ht hst] at hagain))
      (.inl rfl)

end

namespace Refusing

def strings : StringReader := .ofText .strict

def peer : Connection := ⟨fun _ => .ok (), fun _ _ => .ok Refusal.rpc⟩

/-- It writes a field that this version does not know. -/
def transport : Transport where
  newStream _ := .ok ()
  pipe _ _ := .ok (varint 10 ++ lenPrefixed (utf8 "a") ++
    (varint 26 ++ lenPrefixed (varint 120 ++ varint 7 ++ Refusal.error)))

/-- It breaks off inside the response. -/
def breaking : Transport := ⟨fun _ => .ok (), fun _ _ => .ok [10, 1, 97, 26, 2]⟩

theorem serves : transport.Serves strings peer where
  newStream := rfl
  rejects := by rintro k rpc b e _ _ ⟨⟩
  replies := by
    rintro k rpc b reply _ _ ⟨⟩
    exact ⟨_, _, Refusal.written.encode, Refusal.bytes_extends strings, rfl⟩

theorem query_length {page : Nat} {b : Bytes} (h : (Three.call.query page none).encode = .ok b) :
    b.length < 2 ^ 32 := by
  have hid : utf8 "request" = [114, 101, 113, 117, 101, 115, 116] := by decide
  have htopic : (utf8 defaultPubSubTopic).length = 26 := by decide
  have hfilter : (utf8 "/hello").length = 6 := by decide
  have hquery : Three.call.query page none = ⟨"request", some ⟨some defaultPubSubTopic, [⟨"/hello"⟩],
    some ⟨some 2, none, 0⟩, none, none⟩, none⟩ := rfl
  rw [hquery] at h
  simp [HistoryRPC.encode, forkOption, HistoryQuery.encode, PagingInfo.encode, ContentFilter.encode,
    pure, Except.pure, ok_bind] at h
  subst h
  simp [hid, htopic, hfilter, lenPrefixed, varint, uint64Bytes]

theorem carries : Carries Three.call peer where
  replies := by rintro k rpc reply ⟨⟩; exact ⟨rfl, _, Refusal.written⟩
  pageSize := by rintro n ⟨⟩; decide
  small := by
    intro page cursor b hoffers hb
    obtain rfl : cursor = none := by
      rcases hoffers with h | ⟨k, rpc, reply, response, hreply, hresponse, hcursor⟩
      · exact h
      · cases hreply
        cases hresponse
        exact hcursor.symm
    exact query_length hb

end Refusing

/-- The error gets through. -/
theorem settles_serving_refusing :
    Settles (Three.call.reaching (Refusing.transport.connection Refusing.strings))
      (.error (.text "History response contains an Error: INVALID CURSOR")) :=
  (settles_serving Refusing.carries Refusing.serves).mpr ⟨1, rfl⟩

/-! ## Replies cut short -/

section

variable {strings : StringReader} {c : Call}

/-- What comes back on the `k`-th stream of `t` is the start of a reply, two bytes or more short of
its end. -/
structure CutsReply (t : Transport) (k : Nat) (query : HistoryRPC) : Prop where
  cut : ∀ bytes, query.encode = .ok bytes → ∃ reply b cut, HistoryRPC.Written reply b ∧ cut <+: b ∧
    cut.length + 2 ≤ b.length ∧ t.pipe k bytes = .ok cut

theorem throws_of_cut {t : Transport} {st : QueryState}
    (h : CutsReply t st.queries.length (c.query st.queries.length st.cursor)) :
    Throws (queryTurn c (t.connection strings) st) := by
  rcases throws_or_ok (queryTurn c (t.connection strings) st) with hthrows | ⟨turn, hturn⟩
  · exact hthrows
  · rw [queryTurn_eq] at hturn
    obtain ⟨response, hread, _⟩ := bind_eq_ok hturn
    obtain ⟨_, _, hread⟩ := bind_eq_ok hread
    obtain ⟨_, _, hread⟩ := bind_eq_ok hread
    obtain ⟨got, hgot, hread⟩ := bind_eq_ok hread
    obtain ⟨bytes, hbytes, hgot⟩ := bind_eq_ok hgot
    obtain ⟨res, hres, hgot⟩ := bind_eq_ok hgot
    obtain ⟨reply, b, cut, hw, hcut, hshort, hpipe⟩ := h.cut bytes hbytes
    rw [hpipe] at hres
    cases hres
    have hnone := historyRPC_cut strings hw hcut hshort hgot
    obtain ⟨hresponse, _⟩ := readReply_ok_iff.mp hread
    rw [hnone] at hresponse
    cases hresponse

/-- A call whose reply is cut short, in whichever round, rejects. -/
theorem settles_of_cut {t : Transport} {k : Nat} {st : QueryState}
    (hconn : connectionFor c.chance c.store.libp2p c.options.peerId = .ok (t.connection strings))
    (hturns : Turns (queryTurn c (t.connection strings)) k .init st)
    (h : CutsReply t st.queries.length (c.query st.queries.length st.cursor)) :
    ∃ e, ∀ r, Settles c r ↔ r = .error e := by
  obtain ⟨e, he⟩ := @throws_of_cut strings _ _ _ h
  have hsettles : Settles c (.error e) := (settles_iff_ends hconn).mpr (hturns.ends (.throws he))
  exact ⟨e, fun r => ⟨fun hr => settles_unique hr hsettles, fun hr => hr ▸ hsettles⟩⟩

end

/-- A reply without the two bytes of its response. -/
theorem settles_of_cut_breaking : ∃ e, ∀ r,
    Settles (Three.call.reaching (Refusing.breaking.connection Refusing.strings)) r ↔
      r = .error e := by
  have hcut : CutsReply Refusing.breaking 0 (Three.call.query 0 none) := by
    refine ⟨fun bytes _ => ⟨_, _, _, Refusal.written, ⟨[32, 1], ?_⟩, ?_, rfl⟩⟩
    · rw [Refusal.bytes_eq]; rfl
    · rw [Refusal.bytes_eq]; decide
  exact settles_of_cut rfl .refl hcut

end Store
end JsWaku
