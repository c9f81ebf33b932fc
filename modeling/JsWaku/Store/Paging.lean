import JsWaku.Lib.Chunks
import JsWaku.Store.Rounds

/-!
# JsWaku.Store.Paging

Reading a whole history.

* `StorePeer`, `Serves` — a peer that holds messages and answers a query with the next page of the
  ones that match, its cursor naming the last message sent.
* `queryHistory_complete` — from such a peer the call collects every message that decodes, in
  `H.length / n + 1` queries that differ in their cursor only.
-/

namespace JsWaku
namespace Store

open Js WhileLoop Chunks

/-- `select` lists what matches, in the requested direction; `name` names its messages. -/
structure StorePeer where
  select : Criteria → List Proto.WakuMessage
  name : Criteria → Nat → Index

namespace StorePeer

variable (peer : StorePeer)

/-- Where reading goes on after a cursor. -/
inductive After (criteria : Criteria) : Option Index → Nat → Prop where
  | start : After criteria none 0
  | past {i : Nat} : i < (peer.select criteria).length →
      After criteria (some (peer.name criteria i)) (i + 1)

/-- The page of at most `n` messages from place `start` on. -/
structure Page (criteria : Criteria) (start n : Nat) (response : HistoryResponse) : Prop where
  messages : response.messages = ((peer.select criteria).drop start).take n
  error : response.error = errorNoneUnspecified
  pageSize : response.messages ≠ [] →
    response.pagingInfo.bind PagingInfo.pageSize = some response.messages.length
  cursor : response.messages ≠ [] →
    response.cursor = some (peer.name criteria (start + response.messages.length - 1))

structure Serves (connection : Connection) : Prop where
  newStream : ∀ k, connection.newStream k = .ok ()
  answers : ∀ {k rpc q start n}, rpc.query = some q →
    q.pagingInfo.bind PagingInfo.pageSize = some n → 1 ≤ n →
    peer.After q.criteria (q.pagingInfo.bind PagingInfo.cursor) start →
    ∃ reply response, connection.exchange k rpc = .ok reply ∧ reply.response = some response ∧
      peer.Page q.criteria start n response

/-- Queries for `n` messages are answered with pages of at most `m`. -/
structure Answers (connection : Connection) (n m : Nat) : Prop where
  newStream : ∀ k, connection.newStream k = .ok ()
  page : ∀ {k rpc q start}, rpc.query = some q →
    q.pagingInfo.bind PagingInfo.pageSize = some n →
    peer.After q.criteria (q.pagingInfo.bind PagingInfo.cursor) start →
    ∃ reply response, connection.exchange k rpc = .ok reply ∧ reply.response = some response ∧
      peer.Page q.criteria start m response

variable {peer}

theorem Serves.answersWith {connection : Connection} {n : Nat} (hs : peer.Serves connection)
    (hn : 1 ≤ n) : peer.Answers connection n n :=
  ⟨hs.newStream, fun hquery hsize hafter => hs.answers hquery hsize hn hafter⟩

end StorePeer

/-- The call got all of `H`, in pages of `n`. -/
structure Complete (c : Call) (connection : Connection) (H : List Proto.WakuMessage) (n : Nat)
    (st : QueryState) : Prop where
  rounds : st.queries.length = H.length / n + 1
  messages : st.messages.Perm (H.filterMap c.decoded)
  batches : c.options.callback.isSome → st.batches.flatten = st.messages
  queries : ∀ rpc ∈ st.queries, ∃ q, rpc.query = some q ∧ q.criteria = (c.params none).criteria ∧
    q.pagingInfo.bind PagingInfo.pageSize = some n
  first : ∀ rpc ∈ st.queries[0]?, ∀ q ∈ rpc.query, q.pagingInfo.bind PagingInfo.cursor = none
  next : ∀ j, ∀ rpc ∈ st.queries[j]?, ∀ rpc' ∈ st.queries[j + 1]?, ∀ q ∈ rpc'.query,
    ∃ reply response, connection.exchange j rpc = .ok reply ∧ reply.response = some response ∧
      q.pagingInfo.bind PagingInfo.cursor = response.cursor

section

variable {c : Call} {connection : Connection} {peer : StorePeer} {n m k : Nat}

/-- What the call asks for, at whatever cursor. -/
def Call.criteria (c : Call) : Criteria := (c.params none).criteria

/-- The reply to a query whose cursor leads to place `start`. -/
theorem exchange_page (hs : peer.Answers connection n m)
    (hsize : c.options.pageSize.assign 10 = some n) {cursor : Option Index} {start : Nat}
    (hafter : peer.After c.criteria cursor start) :
    ∃ reply, connection.exchange k (c.query k cursor) = .ok reply ∧
      readReply reply = .ok (readAt c connection k cursor) ∧
      peer.Page c.criteria start m (readAt c connection k cursor) := by
  obtain ⟨reply, response, hreply, hresponse, hpage⟩ :=
    @StorePeer.Answers.page peer connection n m hs k (c.query k cursor) _ start rfl hsize hafter
  have hread : readReply reply = .ok response := by
    simp [readReply, hresponse, hpage.error, errorNoneUnspecified]
  have hat : readAt c connection k cursor = response := by
    rw [readAt, hreply, ok_bind, hread]
    rfl
  exact ⟨reply, hreply, by rw [hat, hread], by rw [hat]; exact hpage⟩

theorem shortPage_eq {cursor : Option Index} {response : HistoryResponse} {size : Nat}
    (hsize : c.options.pageSize.assign 10 = some n) (hn : 1 ≤ n)
    (hresponse : response.pagingInfo.bind PagingInfo.pageSize = some size) (hpos : size ≠ 0) :
    shortPage (c.query k cursor) response = decide (size < n) := by
  have hn0 : n ≠ 0 := by omega
  have hquery : (c.query k cursor).query.bind HistoryQuery.pagingInfo =
      some ⟨some n, cursor, directionToProto (c.params cursor).direction⟩ := by
    rw [← hsize]
    rfl
  simp [shortPage, truthySize, hresponse, hquery, hpos, hn0, Option.filter]

/-- The invariant of the loop: before round `k` the cursor leads to place `k * n`. -/
theorem reached_after (hs : peer.Answers connection n n) (hn : 1 ≤ n)
    (hsize : c.options.pageSize.assign 10 = some n)
    (hk : k ≤ (peer.select c.criteria).length / n) :
    Reached c (pagesOf c connection) k ∧
      peer.After c.criteria (cursorAt (pagesOf c connection) k) (k * n) := by
  induction k with
  | zero =>
    rw [Nat.zero_mul]
    exact ⟨fun j hj => by omega, .start⟩
  | succ k ih =>
    obtain ⟨hreach, hafter⟩ := ih (by omega)
    obtain ⟨reply, _, _, hpage⟩ := exchange_page (k := k) hs hsize hafter
    rw [← pagesOf_eq] at hpage
    have hlen : (pagesOf c connection k).messages.length = n := by
      rw [hpage.messages]
      exact chunk_length_full hn hk
    have hne : (pagesOf c connection k).messages ≠ [] := by
      intro h
      rw [h] at hlen
      simp only [List.length_nil] at hlen
      omega
    have hcursor := hpage.cursor hne
    have hfull : shortPage (c.query k (cursorAt (pagesOf c connection) k))
        (pagesOf c connection k) = false := by
      rw [shortPage_eq hsize hn (hpage.pageSize hne) (by omega), hlen]
      simp
    have hgo : GoesOn c (pagesOf c connection) k := ⟨hne, hfull, by rw [hcursor]; rfl⟩
    refine ⟨fun j hj => ?_, ?_⟩
    · rcases Nat.lt_succ_iff_lt_or_eq.mp hj with hj | rfl
      · exact hreach j hj
      · exact hgo
    · have hle := succ_mul_le hn hk
      rw [Nat.succ_mul] at hle ⊢
      have hpast := @StorePeer.After.past peer c.criteria (k * n + n - 1) (by omega)
      rw [show k * n + n - 1 + 1 = k * n + n by omega] at hpast
      rw [cursorAt, hcursor, hlen]
      exact hpast

/-- The reply to query `k` is the `k`-th page of the history. -/
theorem pagesOf_messages (hs : peer.Answers connection n n) (hn : 1 ≤ n)
    (hsize : c.options.pageSize.assign 10 = some n)
    (hk : k ≤ (peer.select c.criteria).length / n) :
    (pagesOf c connection k).messages = chunk n k (peer.select c.criteria) := by
  obtain ⟨_, _, _, hpage⟩ := exchange_page (k := k) hs hsize (reached_after hs hn hsize hk).2
  rw [← pagesOf_eq] at hpage
  exact hpage.messages

/-- The last page is empty or short, so the loop ends there. -/
theorem last_page (hs : peer.Answers connection n n) (hn : 1 ≤ n)
    (hsize : c.options.pageSize.assign 10 = some n) :
    ¬ GoesOn c (pagesOf c connection) ((peer.select c.criteria).length / n) := by
  intro hgo
  have hk := Nat.le_refl ((peer.select c.criteria).length / n)
  obtain ⟨_, _, _, hpage⟩ := exchange_page (k := (peer.select c.criteria).length / n) hs hsize
    (reached_after hs hn hsize hk).2
  rw [← pagesOf_eq] at hpage
  have hlen : (pagesOf c connection ((peer.select c.criteria).length / n)).messages.length =
      (peer.select c.criteria).length % n := by
    rw [pagesOf_messages hs hn hsize hk]
    exact chunk_length_last hn
  have hpos := List.length_pos_of_ne_nil hgo.messages
  have hfull := hgo.full
  rw [shortPage_eq hsize hn (hpage.pageSize hgo.messages) (by omega), hlen] at hfull
  exact of_decide_eq_false hfull (Nat.mod_lt _ hn)

/-- The pages together are the history. -/
theorem flatMap_pagesOf (hs : peer.Answers connection n n) (hn : 1 ≤ n)
    (hsize : c.options.pageSize.assign 10 = some n) :
    ((List.range ((peer.select c.criteria).length / n + 1)).flatMap fun j =>
      (pagesOf c connection j).messages) = peer.select c.criteria := by
  refine (List.flatMap_congr fun j hj => ?_).trans (flatMap_chunks hn)
  exact pagesOf_messages hs hn hsize (by have := List.mem_range.mp hj; omega)

theorem replays_pagesOf (hs : peer.Answers connection n n) (hn : 1 ≤ n)
    (hsize : c.options.pageSize.assign 10 = some n) :
    Replays c (pagesOf c connection) connection := by
  refine ⟨⟨n, hsize⟩, fun k _ => hs.newStream k, fun k hreach => ?_⟩
  have hk : k ≤ (peer.select c.criteria).length / n := by
    by_contra hlt
    exact last_page hs hn hsize (hreach _ (by omega))
  obtain ⟨reply, hreply, hread, _⟩ := exchange_page hs hsize (reached_after hs hn hsize hk).2
  rw [← pagesOf_eq] at hread
  exact ⟨reply, hreply, hread⟩

theorem queryHistory_complete
    (hconn : connectionFor c.chance c.store.libp2p c.options.peerId = .ok connection)
    (hs : peer.Serves connection) (hn : 1 ≤ n) (hsize : c.options.pageSize.assign 10 = some n)
    (hq : c.Quiet) (hclean : ∀ m ∈ peer.select c.criteria, ¬ c.Rejects m) :
    ∃ st, (∀ r, Settles c r ↔ r = .ok st) ∧
      Complete c connection (peer.select c.criteria) n st := by
  have hs := hs.answersWith hn
  have hr := replays_pagesOf (c := c) hs hn hsize
  have hreach := reached_after (c := c) hs hn hsize (Nat.le_refl _)
  have hpages := fun k => pagesOf_messages (c := c) (k := k) hs hn hsize
  have hall : ∀ j ≤ (peer.select c.criteria).length / n, Clean c (pagesOf c connection) j := by
    intro j hj m hm
    rw [hpages j hj] at hm
    exact hclean m (List.mem_of_mem_drop (List.mem_of_mem_take hm))
  have hsettles := (settles_ok_iff hconn hr hq).mpr
    ⟨_, hreach.1, last_page hs hn hsize, hall, rfl⟩
  refine ⟨_, fun r => ⟨fun h => settles_unique h hsettles, fun h => h ▸ hsettles⟩, ?_⟩
  refine ⟨?_, ?_, fun hcb => lastState_batches hcb, ?_, ?_, ?_⟩
  · rw [lastState_queries]
    simp [queriesUpTo]
  · have hperm := lastState_perm hall
    rwa [flatMap_pagesOf hs hn hsize] at hperm
  · intro rpc hrpc
    rw [lastState_queries] at hrpc
    obtain ⟨j, _, rfl⟩ := List.mem_map.mp hrpc
    exact ⟨_, rfl, rfl, hsize⟩
  · intro rpc hrpc q hquery
    rw [lastState_queries] at hrpc
    obtain ⟨_, rfl⟩ := queriesUpTo_getElem?_iff.mp hrpc
    cases hquery
    rfl
  · intro j rpc hrpc rpc' hrpc' q hquery
    rw [lastState_queries] at hrpc hrpc'
    obtain ⟨hj, rfl⟩ := queriesUpTo_getElem?_iff.mp hrpc
    obtain ⟨_, rfl⟩ := queriesUpTo_getElem?_iff.mp hrpc'
    cases hquery
    obtain ⟨reply, hreply, hread⟩ := hr.reply j (fun i hi => hreach.1 i (by omega))
    exact ⟨reply, _, hreply, (readReply_ok_iff.mp hread).1, rfl⟩

end

/-! ## A peer that holds a list -/

section

variable (H : List Proto.WakuMessage)

/-- It names its `i`-th message by a digest of `i` bytes. -/
def listPeer : StorePeer := ⟨fun _ => H, fun _ i => ⟨zeros i, 0, 0⟩⟩

def listResponse (pagingInfo : PagingInfo) : HistoryResponse :=
  let start := match pagingInfo.cursor with
    | none => 0
    | some cursor => cursor.digest.length + 1
  let page := (H.drop start).take (pagingInfo.pageSize.getD 0)
  { messages := page
    pagingInfo :=
      some ⟨some page.length, some ⟨zeros (start + page.length - 1), 0, 0⟩, pagingInfo.direction⟩
    error := errorNoneUnspecified }

def listConnection : Connection where
  newStream _ := .ok ()
  exchange _ rpc :=
    .ok ⟨rpc.requestId, none, (rpc.query.bind HistoryQuery.pagingInfo).map (listResponse H)⟩

theorem listConnection_serves : (listPeer H).Serves (listConnection H) where
  newStream _ := rfl
  answers := by
    intro k rpc q start n hq hsize _ hafter
    obtain ⟨pagingInfo, hpaging, hpageSize⟩ := Option.bind_eq_some_iff.mp hsize
    refine ⟨_, listResponse H pagingInfo, rfl, by simp [hq, hpaging], ?_⟩
    rw [hpaging, Option.bind_some] at hafter
    have hstart : (match pagingInfo.cursor with
        | none => 0
        | some cursor => cursor.digest.length + 1) = start := by
      generalize pagingInfo.cursor = cursor at hafter
      cases hafter with
      | start => rfl
      | past _ => simp [listPeer]
    have hpage : (listResponse H pagingInfo).messages = (H.drop start).take n := by
      simp only [listResponse, hstart, hpageSize, Option.getD_some]
    refine ⟨hpage, rfl, fun _ => rfl, fun _ => ?_⟩
    simp only [HistoryResponse.cursor, listResponse, hstart, Option.bind_some]
    rfl

end

namespace Three

def message (payload : UInt8) : Proto.WakuMessage :=
  ⟨some [payload], some "/hello", some 0, some 0⟩

def history : List Proto.WakuMessage := [message 1, message 2, message 3]

def chance : Chance where
  uuid _ := "request"
  round n := n
  round_le _ := Nat.le_refl _
  finish _ n := (List.range n).reverse
  finish_perm _ _ := List.reverse_perm _

def libp2p : Libp2p :=
  ⟨[⟨"store", [storeCodec]⟩], fun _ => some (listConnection history)⟩

def call : Call where
  libs := .transparent
  rt := .node
  store := .new libp2p none
  contentTopics := ["/hello"]
  options := { QueryOptions.none with pageSize := .value 2 }
  chance := chance

theorem clean : ∀ m ∈ history, ¬ call.Rejects m := by
  intro m hm
  simp only [history, List.mem_cons, List.not_mem_nil, or_false] at hm
  rcases hm with rfl | rfl | rfl <;> exact not_throws_ok _

end Three

/-- Three clear messages, two to a page, the decodes of a page finishing last to first. -/
theorem queryHistory_complete_three :
    ∃ st, Settles Three.call (.ok st) ∧ st.queries.length = 2 ∧
      st.messages.Perm (Three.history.filterMap Three.call.decoded) := by
  obtain ⟨st, hst, hcomplete⟩ := @queryHistory_complete Three.call _ (listPeer Three.history) 2
    (show connectionFor Three.call.chance Three.call.store.libp2p none = .ok _ from rfl)
    (listConnection_serves Three.history) (by decide) rfl (by rintro _ ⟨⟩) Three.clean
  exact ⟨st, (hst _).mpr rfl, hcomplete.rounds, hcomplete.messages⟩

end Store
end JsWaku
