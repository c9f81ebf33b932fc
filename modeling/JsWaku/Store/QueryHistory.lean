import JsWaku.Lib.Loop
import JsWaku.Message.WakuMessage
import JsWaku.Store.HistoryRpc

/-!
# JsWaku.Store.QueryHistory

`lib/waku_store/index.ts` and `lib/select_peer.ts`: picking a peer, then reading its history page by
page until a page says it is the last one.

* `queryTurn`    — the body of the `while (true)` loop, over the accumulators of the call.
* `queryHistory` — the call; it ends with the accumulators at the `return`, or with what it throws.
* `settle`       — `Promise.all` over the decodes of one page: the messages in the order in which
  the decodes finish, or the first rejection in that order.
* `queryTurn_eq` — a round reads a page, then decodes it and hands it on.
-/

namespace JsWaku
namespace Store

open Js SymmetricCrypto WhileLoop

abbrev PeerId := String

structure Peer where
  id : PeerId
  protocols : List String
  deriving DecidableEq, Repr

/-- An open connection. The `k`-th query goes out on a stream of its own; `exchange` covers encoding
it, sending it, and decoding the reply. -/
structure Connection where
  newStream : Nat → Except Thrown Unit
  exchange : Nat → HistoryRPC → Except Thrown HistoryRPC

/-- `peerStore` lists the known peers, one for each id. -/
structure Libp2p where
  peerStore : List Peer
  connectionManager : PeerId → Option Connection

def storeCodec : String := "/vac/waku/store/2.0.0-beta3"
def defaultPubSubTopic : String := "/waku/2/default-waku/proto"

structure WakuStore where
  libp2p : Libp2p
  pubSubTopic : String

/-- The constructor: an empty topic counts as none. -/
def WakuStore.new (libp2p : Libp2p) (pubSubTopic : Option String) : WakuStore :=
  match pubSubTopic with
  | some t => if t ≠ "" then ⟨libp2p, t⟩ else ⟨libp2p, defaultPubSubTopic⟩
  | none => ⟨libp2p, defaultPubSubTopic⟩

structure TimeFilter where
  startTime : Date
  endTime : Date

/-- No options at all are the same as none set. -/
structure QueryOptions where
  peerId : Option PeerId
  pubSubTopic : OptField String
  direction : OptField Direction
  pageSize : OptField Nat
  timeFilter : Option TimeFilter
  callback : Option (List WakuMessage → Except Thrown Unit)
  decryptionKeys : Option (List Bytes)

def QueryOptions.none : QueryOptions :=
  ⟨.none, .absent, .absent, .absent, .none, .none, .none⟩

/-- What a call leaves to chance: request ids, `Math.round(Math.random() * n)`, and the order in
which the decodes of a page finish, as an order of their places in the page. -/
structure Chance where
  uuid : Nat → String
  round : Nat → Nat
  round_le : ∀ n, round n ≤ n
  finish : Nat → Nat → List Nat
  finish_perm : ∀ k n, (finish k n).Perm (List.range n)

/-- The last peer, and decodes that finish in the order of the page. -/
def Chance.inTurn : Chance where
  uuid _ := "request"
  round n := n
  round_le _ := Nat.le_refl _
  finish _ n := List.range n
  finish_perm _ n := List.Perm.refl (List.range n)

def selectRandomPeer (chance : Chance) (peers : List Peer) : Option Peer :=
  if peers.length = 0 then none else peers[chance.round (peers.length - 1)]?

def getPeersForProtocol (libp2p : Libp2p) (protocol : String) : List Peer :=
  libp2p.peerStore.filter fun peer => peer.protocols.contains protocol

def choosePeer (chance : Chance) (libp2p : Libp2p) (peerId : Option PeerId) :
    Except Thrown (Option Peer) :=
  match peerId with
  | some id =>
    match libp2p.peerStore.find? (·.id = id) with
    | none => .error (.text "Peer is unknown")
    | some peer => .ok (some peer)
  | none => .ok (selectRandomPeer chance (getPeersForProtocol libp2p storeCodec))

def connectTo (libp2p : Libp2p) (peer : Option Peer) : Except Thrown Connection :=
  match peer with
  | none => .error (.text "No peer available")
  | some peer =>
    if peer.protocols.contains storeCodec then
      match libp2p.connectionManager peer.id with
      | none => .error (.text "Failed to get a connection to the peer")
      | some connection => .ok connection
    else .error (.text "Peer does not register waku store protocol")

def connectionFor (chance : Chance) (libp2p : Libp2p) (peerId : Option PeerId) :
    Except Thrown Connection := do
  let peer ← choosePeer chance libp2p peerId
  connectTo libp2p peer

/-- A call of `queryHistory`: its arguments, the packages underneath, and what chance decides. -/
structure Call where
  libs : Libs
  rt : Runtime
  store : WakuStore
  contentTopics : List String
  options : QueryOptions
  chance : Chance

/-- `opts`, the merged options, at a given cursor. -/
def Call.params (c : Call) (cursor : Option Index) : Params where
  contentTopics := c.contentTopics
  pubSubTopic := c.options.pubSubTopic.assign c.store.pubSubTopic
  direction := c.options.direction.assign .backward
  pageSize := c.options.pageSize.assign 10
  startTime := c.options.timeFilter.map fun f => f.startTime.toSeconds
  endTime := c.options.timeFilter.map fun f => f.endTime.toSeconds
  cursor := cursor

/-- The query of round `page`. -/
def Call.query (c : Call) (page : Nat) (cursor : Option Index) : HistoryRPC :=
  createQuery (c.chance.uuid page) (c.params cursor)

/-- Everything the call accumulates, with the queries it sent and the batches it handed to the
callback. -/
structure QueryState where
  messages : List WakuMessage
  batches : List (List WakuMessage)
  queries : List HistoryRPC
  cursor : Option Index

def QueryState.init : QueryState := ⟨[], [], [], none⟩

/-- Both `push`es of a page, then the callback on it. -/
def QueryState.push (st : QueryState) (callback : Option (List WakuMessage → Except Thrown Unit))
    (pageMessages : List WakuMessage) : Except Thrown QueryState :=
  let st := { st with messages := st.messages ++ pageMessages }
  match callback with
  | none => .ok st
  | some callback => do
    callback pageMessages
    return { st with batches := st.batches ++ [pageMessages] }

/-- The results in the order in which the promises settle. -/
def inOrder {α : Type} (chance : Chance) (page : Nat) (results : List α) : List α :=
  (chance.finish page results.length).filterMap (results[·]?)

/-- The decodes of one page, all together. -/
def settle (c : Call) (page : Nat) (messages : List Proto.WakuMessage) :
    Except Thrown (List WakuMessage) := do
  let decodes := messages.map (decodeProto c.libs c.rt · c.options.decryptionKeys)
  let results ← promiseAll (inOrder c.chance page decodes)
  return results.filterMap id

/-- `response.pagingInfo?.pageSize`, where zero is no page size either. -/
def truthySize (pagingInfo : Option PagingInfo) : Option Nat :=
  (pagingInfo.bind PagingInfo.pageSize).filter (· ≠ 0)

/-- The reply has fewer messages than asked for. -/
def shortPage (rpc : HistoryRPC) (response : HistoryResponse) : Bool :=
  match truthySize response.pagingInfo, truthySize (rpc.query.bind HistoryQuery.pagingInfo) with
  | some responsePageSize, some queryPageSize => responsePageSize < queryPageSize
  | _, _ => false

/-- What becomes of a reply: an exit, or a page of messages to read. -/
def readReply (reply : HistoryRPC) : Except Thrown HistoryResponse :=
  match reply.response with
  | none => .error (.text "History response misses response field")
  | some response =>
    if response.error ≠ 0 ∧ response.error = errorInvalidCursor then
      .error (.text "History response contains an Error: INVALID CURSOR")
    else .ok response

def HistoryResponse.cursor (response : HistoryResponse) : Option Index :=
  response.pagingInfo.bind PagingInfo.cursor

/-- A short page and a missing cursor end the loop. -/
def turnAfter (rpc : HistoryRPC) (response : HistoryResponse) (st : QueryState) : Turn QueryState :=
  if shortPage rpc response then .stop st
  else
    match response.cursor with
    | none => .stop st
    | some cursor => .again { st with cursor := some cursor }

def queryTurn (c : Call) (connection : Connection) (st : QueryState) :
    Except Thrown (Turn QueryState) := do
  let page := st.queries.length
  connection.newStream page
  let historyRpcQuery := c.query page st.cursor
  historyRpcQuery.encodes
  let reply ← connection.exchange page historyRpcQuery
  let st := { st with queries := st.queries ++ [historyRpcQuery] }
  let response ← readReply reply
  if response.messages = [] then return .stop st
  let pageMessages ← settle c page response.messages
  let st ← st.push c.options.callback pageMessages
  return turnAfter historyRpcQuery response st

/-- The part of a round before the decodes. -/
def readPage (c : Call) (connection : Connection) (st : QueryState) :
    Except Thrown HistoryResponse := do
  connection.newStream st.queries.length
  (c.query st.queries.length st.cursor).encodes
  let reply ← connection.exchange st.queries.length (c.query st.queries.length st.cursor)
  readReply reply

/-- The call, with fuel for the loop. -/
def queryHistory (c : Call) (fuel : Nat) : Option (Except Thrown QueryState) :=
  match connectionFor c.chance c.store.libp2p c.options.peerId with
  | .error e => some (.error e)
  | .ok connection => run (queryTurn c connection) fuel .init

/-- The call settles with `r`; one that reads for ever settles with nothing. -/
def Settles (c : Call) (r : Except Thrown QueryState) : Prop := ∃ fuel, queryHistory c fuel = some r

/-- The call sends `rpc`, whatever becomes of it afterwards. -/
def Sends (c : Call) (rpc : HistoryRPC) : Prop :=
  ∃ connection k st, connectionFor c.chance c.store.libp2p c.options.peerId = .ok connection ∧
    Turns (queryTurn c connection) k .init st ∧ connection.newStream st.queries.length = .ok () ∧
    rpc = c.query st.queries.length st.cursor ∧ rpc.encodes = .ok ()

/-- The message a stored one decodes to, if it decodes. -/
def Call.decoded (c : Call) (m : Proto.WakuMessage) : Option WakuMessage :=
  (decodeProto c.libs c.rt m c.options.decryptionKeys).toOption.join

/-- Decoding `m` rejects. -/
def Call.Rejects (c : Call) (m : Proto.WakuMessage) : Prop :=
  Throws (decodeProto c.libs c.rt m c.options.decryptionKeys)

/-- A callback that returns. -/
def Call.Quiet (c : Call) : Prop :=
  ∀ callback, c.options.callback = some callback → ∀ batch, callback batch = .ok ()

/-- The callback, if there is one, returns from this batch. -/
def Call.Hears (c : Call) (batch : List WakuMessage) : Prop :=
  ∀ callback, c.options.callback = some callback → callback batch = .ok ()

theorem Call.Quiet.hears {c : Call} (hq : c.Quiet) (batch : List WakuMessage) : c.Hears batch :=
  fun callback hcb => hq callback hcb batch

section

variable {c : Call} {connection : Connection}

theorem filterMap_range_getElem? {α : Type} (l : List α) :
    (List.range l.length).filterMap (l[·]?) = l := by
  induction l using List.reverseRecOn with
  | nil => rfl
  | append_singleton l a ih =>
    have hleft : (List.range l.length).filterMap ((l ++ [a])[·]?) = l := by
      refine (List.filterMap_congr fun i hi => ?_).trans ih
      exact List.getElem?_append_left (List.mem_range.mp hi)
    rw [List.length_append, List.length_singleton, List.range_succ, List.filterMap_append, hleft]
    simp

theorem inOrder_perm {α : Type} (chance : Chance) (page : Nat) (results : List α) :
    (inOrder chance page results).Perm results := by
  have h := (chance.finish_perm page results.length).filterMap (results[·]?)
  rwa [filterMap_range_getElem?] at h

/-- One message whose decode rejects is enough. -/
theorem throws_settle {page : Nat} {messages : List Proto.WakuMessage} :
    Throws (settle c page messages) ↔ ∃ m ∈ messages, c.Rejects m := by
  have hbind : Throws (settle c page messages) ↔ Throws (promiseAll (inOrder c.chance page
      (messages.map (decodeProto c.libs c.rt · c.options.decryptionKeys)))) := by
    rw [settle]
    cases promiseAll (inOrder c.chance page
      (messages.map (decodeProto c.libs c.rt · c.options.decryptionKeys))) <;>
      simp [throws_error, pure, Except.pure]
  rw [hbind, throws_promiseAll]
  simp [(inOrder_perm c.chance page _).mem_iff, Call.Rejects]

/-- A page that settles gives the messages of it that decode, in some order. -/
theorem settle_perm {page : Nat} {messages : List Proto.WakuMessage} {xs : List WakuMessage}
    (h : settle c page messages = .ok xs) : xs.Perm (messages.filterMap c.decoded) := by
  obtain ⟨results, hall, h⟩ := bind_eq_ok h
  cases h
  have hperm : (results.map .ok).Perm
      (messages.map (decodeProto c.libs c.rt · c.options.decryptionKeys)) := by
    rw [← promiseAll_eq_ok.mp hall]
    exact inOrder_perm c.chance page _
  have hfm := hperm.filterMap fun r : Except Thrown (Option WakuMessage) => r.toOption.join
  rw [List.filterMap_map, List.filterMap_map] at hfm
  exact hfm

/-! ## What a round does -/

theorem readReply_ok_iff {reply : HistoryRPC} {response : HistoryResponse} :
    readReply reply = .ok response ↔
      reply.response = some response ∧ response.error ≠ errorInvalidCursor := by
  unfold readReply
  split
  · rename_i hnone
    simp [hnone]
  · rename_i response' hsome
    rw [hsome]
    split
    · rename_i herror
      constructor
      · intro h
        cases h
      · rintro ⟨h, hne⟩
        cases h
        exact absurd herror.2 hne
    · rename_i herror
      constructor
      · intro h
        cases h
        exact ⟨rfl, fun heq => herror ⟨by rw [heq]; decide, heq⟩⟩
      · rintro ⟨h, _⟩
        cases h
        rfl

theorem settles_iff_ends {r : Except Thrown QueryState}
    (hconn : connectionFor c.chance c.store.libp2p c.options.peerId = .ok connection) :
    Settles c r ↔ Ends (queryTurn c connection) .init r := by
  rw [ends_iff_run, Settles]
  simp only [queryHistory, hconn]

theorem settles_unique {r r' : Except Thrown QueryState} (h : Settles c r) (h' : Settles c r') :
    r = r' := by
  cases hconn : connectionFor c.chance c.store.libp2p c.options.peerId with
  | error e =>
    obtain ⟨_, h⟩ := h
    obtain ⟨_, h'⟩ := h'
    simp only [queryHistory, hconn] at h h'
    cases h
    cases h'
    rfl
  | ok connection =>
    exact ((settles_iff_ends hconn).mp h).deterministic ((settles_iff_ends hconn).mp h')

/-- The state after a page has been pushed. -/
def Call.pushed (c : Call) (st : QueryState) (pageMessages : List WakuMessage) : QueryState where
  messages := st.messages ++ pageMessages
  batches := if c.options.callback.isSome then st.batches ++ [pageMessages] else st.batches
  queries := st.queries
  cursor := st.cursor

theorem push_heard {pageMessages : List WakuMessage} (h : c.Hears pageMessages) (st : QueryState) :
    st.push c.options.callback pageMessages = .ok (c.pushed st pageMessages) := by
  cases hcb : c.options.callback with
  | none => simp [QueryState.push, Call.pushed, hcb]
  | some callback =>
    simp [QueryState.push, Call.pushed, hcb, h callback hcb, pure, Except.pure]

theorem queryTurn_eq {st : QueryState} : queryTurn c connection st = (do
    let response ← readPage c connection st
    let st' := { st with queries := st.queries ++ [c.query st.queries.length st.cursor] }
    if response.messages = [] then return .stop st'
    let pageMessages ← settle c st.queries.length response.messages
    let st' ← st'.push c.options.callback pageMessages
    return turnAfter (c.query st.queries.length st.cursor) response st') := by
  simp only [queryTurn, readPage, bind_assoc]

end

end Store
end JsWaku
