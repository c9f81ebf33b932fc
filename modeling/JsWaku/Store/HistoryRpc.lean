import JsWaku.Message.Proto

/-!
# JsWaku.Store.HistoryRpc

`lib/waku_store/history_rpc.ts` and the messages of `proto/waku/v2/store.ts` it builds.

Enumerations are open on the wire: a value the schema does not name decodes to its integer, so
`direction` and `error` are integers here.

* `HistoryQuery.criteria` — the part of a query that says what is asked for, without the place in
  the history to read from.
-/

namespace JsWaku
namespace Store

open Js

/-- `enum Direction`; the wire knows it as an integer. -/
inductive Direction where
  | backward
  | forward
  deriving DecidableEq, Repr

def directionBackwardUnspecified : Int := 0
def directionForward : Int := 1

def errorNoneUnspecified : Int := 0
def errorInvalidCursor : Int := 1

structure Index where
  digest : Bytes
  receivedTime : Proto.Double
  senderTime : Proto.Double
  deriving DecidableEq, Repr

/-- `pageSize` is `none` when an explicit `undefined` got into a query. -/
structure PagingInfo where
  pageSize : Option Nat
  cursor : Option Index
  direction : Int
  deriving DecidableEq, Repr

structure ContentFilter where
  contentTopic : String
  deriving DecidableEq, Repr

structure HistoryQuery where
  pubSubTopic : Option String
  contentFilters : List ContentFilter
  pagingInfo : Option PagingInfo
  startTime : Option Proto.Double
  endTime : Option Proto.Double
  deriving DecidableEq, Repr

structure HistoryResponse where
  messages : List Proto.WakuMessage
  pagingInfo : Option PagingInfo
  error : Int
  deriving DecidableEq, Repr

structure HistoryRPC where
  requestId : String
  query : Option HistoryQuery
  response : Option HistoryResponse
  deriving DecidableEq, Repr

structure Params where
  contentTopics : List String
  pubSubTopic : Option String
  direction : Option Direction
  pageSize : Option Nat
  startTime : Option Proto.Double
  endTime : Option Proto.Double
  cursor : Option Index
  deriving DecidableEq, Repr

/-- The `default` branch takes an `undefined` too. -/
def directionToProto : Option Direction → Int
  | some .backward => directionBackwardUnspecified
  | some .forward => directionForward
  | none => directionBackwardUnspecified

def Params.query (params : Params) : HistoryQuery where
  pubSubTopic := params.pubSubTopic
  contentFilters := params.contentTopics.map fun contentTopic => ⟨contentTopic⟩
  pagingInfo := some ⟨params.pageSize, params.cursor, directionToProto params.direction⟩
  startTime := params.startTime
  endTime := params.endTime

/-- `HistoryRPC.createQuery`; `requestId` is what `uuid()` draws. -/
def createQuery (requestId : String) (params : Params) : HistoryRPC :=
  ⟨requestId, some params.query, none⟩

/-- `encode` gives a page size that is not a number to `writer.uint64`, which throws. The bytes
themselves are left to the transport. -/
def HistoryRPC.encodes (rpc : HistoryRPC) : Except Thrown Unit :=
  match rpc.query with
  | some ⟨_, _, some ⟨none, _, _⟩, _, _⟩ => .error .typeError
  | _ => .ok ()

structure Criteria where
  pubSubTopic : Option String
  contentFilters : List ContentFilter
  direction : Option Int
  startTime : Option Proto.Double
  endTime : Option Proto.Double
  deriving DecidableEq, Repr

def HistoryQuery.criteria (q : HistoryQuery) : Criteria where
  pubSubTopic := q.pubSubTopic
  contentFilters := q.contentFilters
  direction := q.pagingInfo.map PagingInfo.direction
  startTime := q.startTime
  endTime := q.endTime

def Params.criteria (p : Params) : Criteria where
  pubSubTopic := p.pubSubTopic
  contentFilters := p.contentTopics.map fun contentTopic => ⟨contentTopic⟩
  direction := some (directionToProto p.direction)
  startTime := p.startTime
  endTime := p.endTime

theorem createQuery_encodes {requestId : String} {params : Params} {n : Nat}
    (h : params.pageSize = some n) : (createQuery requestId params).encodes = .ok () := by
  simp [createQuery, Params.query, HistoryRPC.encodes, h]

end Store
end JsWaku
