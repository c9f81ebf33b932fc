import JsWaku.Store.QueryHistory

/-!
# JsWaku.Store.Replay

A query over replies known in advance: `pages k` is the readable reply to query `k`.

* `Reached c pages k`  — the pages before `k` all made the loop go round again.
* `stateAt c pages k`  — the accumulators at the top of round `k`.
* `lastState c pages k` — the accumulators when round `k` is the last one.
* `lastState_perm` — the messages in them are those of the pages that decode.
-/

namespace JsWaku
namespace Store

open Js WhileLoop

section

variable (c : Call) (pages : Nat → HistoryResponse)

def cursorAt : Nat → Option Index
  | 0 => none
  | k + 1 => (pages k).cursor

def pageMessages (k : Nat) : List WakuMessage :=
  (settle c k (pages k).messages).toOption.getD []

def queriesUpTo (k : Nat) : List HistoryRPC :=
  (List.range k).map fun j => c.query j (cursorAt pages j)

def stateAt (k : Nat) : QueryState where
  messages := (List.range k).flatMap (pageMessages c pages)
  batches := if c.options.callback.isSome then (List.range k).map (pageMessages c pages) else []
  queries := queriesUpTo c pages k
  cursor := cursorAt pages k

def lastState (k : Nat) : QueryState :=
  let st := { stateAt c pages k with queries := queriesUpTo c pages (k + 1) }
  if (pages k).messages = [] then st else c.pushed st (pageMessages c pages k)

/-- None of the exits is taken after page `k`. -/
structure GoesOn (k : Nat) : Prop where
  messages : (pages k).messages ≠ []
  full : shortPage (c.query k (cursorAt pages k)) (pages k) = false
  cursor : (pages k).cursor.isSome

def Reached (k : Nat) : Prop := ∀ j < k, GoesOn c pages j

/-- Every message of page `k` decodes or is passed over. -/
def Clean (k : Nat) : Prop := ∀ m ∈ (pages k).messages, ¬ c.Rejects m

/-- The peer answers every query that is sent with its page. -/
structure Replays (connection : Connection) : Prop where
  pageSize : ∃ n, c.options.pageSize.assign 10 = some n
  newStream : ∀ k, Reached c pages k → connection.newStream k = .ok ()
  reply : ∀ k, Reached c pages k → ∃ rpc,
    connection.exchange k (c.query k (cursorAt pages k)) = .ok rpc ∧ readReply rpc = .ok (pages k)

/-- The reply to query `k`, read; something empty where there is none. -/
def readAt (connection : Connection) (k : Nat) (cursor : Option Index) : HistoryResponse :=
  (connection.exchange k (c.query k cursor) >>= readReply).toOption.getD ⟨[], none, 0⟩

/-- The pages a connection turns out to reply with. -/
def pagesOf (connection : Connection) : Nat → HistoryResponse
  | 0 => readAt c connection 0 none
  | k + 1 => readAt c connection (k + 1) (pagesOf connection k).cursor

end

section

variable {c : Call} {pages : Nat → HistoryResponse} {connection : Connection} {k : Nat}

theorem pagesOf_eq :
    pagesOf c connection k = readAt c connection k (cursorAt (pagesOf c connection) k) := by
  cases k <;> rfl

@[simp] theorem stateAt_queries_length : (stateAt c pages k).queries.length = k := by
  simp [stateAt, queriesUpTo]

@[simp] theorem stateAt_cursor : (stateAt c pages k).cursor = cursorAt pages k := rfl

theorem stateAt_zero : stateAt c pages 0 = .init := by
  simp [stateAt, queriesUpTo, QueryState.init, cursorAt]

theorem queriesUpTo_succ : queriesUpTo c pages (k + 1) =
    queriesUpTo c pages k ++ [c.query k (cursorAt pages k)] := by
  simp [queriesUpTo, List.range_succ]

theorem settle_clean (h : Clean c pages k) :
    settle c k (pages k).messages = .ok (pageMessages c pages k) := by
  rcases throws_or_ok (settle c k (pages k).messages) with ht | ⟨xs, hxs⟩
  · obtain ⟨m, hm, hrej⟩ := throws_settle.mp ht
    exact absurd hrej (h m hm)
  · rw [pageMessages, hxs]; rfl

theorem pageMessages_perm (h : Clean c pages k) :
    (pageMessages c pages k).Perm ((pages k).messages.filterMap c.decoded) :=
  settle_perm (settle_clean h)

theorem pageMessages_nil (h : (pages k).messages = []) : pageMessages c pages k = [] := by
  have hclean : Clean c pages k := by simp [Clean, h]
  have := pageMessages_perm hclean
  rw [h] at this
  exact this.eq_nil

/-- The state a page that is followed by another leaves behind. -/
theorem lastState_cursor {cursor : Index} (hne : (pages k).messages ≠ [])
    (hcursor : (pages k).cursor = some cursor) :
    { lastState c pages k with cursor := some cursor } = stateAt c pages (k + 1) := by
  simp only [lastState, hne, ite_false, stateAt, Call.pushed, cursorAt, hcursor, List.range_succ,
    List.flatMap_append, List.flatMap_singleton, List.map_append, List.map_singleton]
  split <;> rfl

/-- The `j`-th query goes on where page `j - 1` ended. -/
theorem queriesUpTo_getElem?_iff {j : Nat} {rpc : HistoryRPC} :
    (queriesUpTo c pages k)[j]? = some rpc ↔ j < k ∧ rpc = c.query j (cursorAt pages j) := by
  rw [queriesUpTo, List.getElem?_map]
  by_cases hj : j < k
  · rw [List.getElem?_range hj]
    simp [hj, eq_comm]
  · rw [List.getElem?_eq_none (by simpa using hj)]
    simp [hj]

theorem lastState_messages :
    (lastState c pages k).messages = (List.range (k + 1)).flatMap (pageMessages c pages) := by
  unfold lastState
  by_cases hne : (pages k).messages = []
  · simp [hne, stateAt, List.range_succ, pageMessages_nil hne]
  · simp [hne, stateAt, List.range_succ, Call.pushed]

theorem lastState_queries : (lastState c pages k).queries = queriesUpTo c pages (k + 1) := by
  unfold lastState
  split <;> rfl

/-- The batches are the returned list, cut into pages. -/
theorem lastState_batches (hcb : c.options.callback.isSome) :
    (lastState c pages k).batches.flatten = (lastState c pages k).messages := by
  rw [lastState_messages]
  unfold lastState
  by_cases hne : (pages k).messages = []
  · simp [hne, stateAt, hcb, List.range_succ, pageMessages_nil hne, List.flatMap]
  · simp [hne, stateAt, hcb, List.range_succ, Call.pushed, List.flatMap]

/-- The returned list holds the messages of the pages read that decode, each as often as the pages
do. -/
theorem lastState_perm (hclean : ∀ j ≤ k, Clean c pages j) :
    (lastState c pages k).messages.Perm
      (((List.range (k + 1)).flatMap fun j => (pages j).messages).filterMap c.decoded) := by
  rw [lastState_messages, List.filterMap_flatMap]
  refine List.Perm.flatMap_left _ fun j hj => ?_
  exact pageMessages_perm (hclean j (by have := List.mem_range.mp hj; omega))

end

end Store
end JsWaku
