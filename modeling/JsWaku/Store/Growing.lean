import JsWaku.Lib.Cursor
import JsWaku.Store.Paging

/-!
# JsWaku.Store.Growing

Reading a history that grows between the queries.

* `Growing` — a peer that answers query `k` from what it holds at that time, its cursor naming the
  last message sent.
* `queryHistory_growing` — the call gets all that was there at the first query, and nothing that is
  not there at the last; what came in meanwhile it gets at most once.
* `queryHistory_snapshot` — it gets what was there at the first query if messages come in ahead of
  those only, as they do when the newest is first.
* `queryHistory_follows` — if they come in at the end it gets them too, and returns exactly if it
  catches up.
-/

namespace JsWaku
namespace Store

open Js WhileLoop Cursor

/-- Messages with their names. -/
abbrev Entries := List (Index × Proto.WakuMessage)

/-- What matches at the time of query `k`, in the requested direction. -/
abbrev Histories := Nat → Criteria → Entries

/-- A page with these entries. -/
structure PageOf (entries : Entries) (response : HistoryResponse) : Prop where
  messages : response.messages = entries.map Prod.snd
  error : response.error = errorNoneUnspecified
  pageSize : response.messages ≠ [] →
    response.pagingInfo.bind PagingInfo.pageSize = some response.messages.length
  cursor : ∀ page e, entries = page ++ [e] → response.cursor = some e.1

structure Growing (histories : Histories) (connection : Connection) : Prop where
  newStream : ∀ k, connection.newStream k = .ok ()
  answers : ∀ {k rpc q n rest}, rpc.query = some q →
    q.pagingInfo.bind PagingInfo.pageSize = some n → 1 ≤ n →
    Behind (histories k q.criteria) (q.pagingInfo.bind PagingInfo.cursor) rest →
    ∃ reply response, connection.exchange k rpc = .ok reply ∧ reply.response = some response ∧
      PageOf (rest.take n) response

/-- A call for pages of `n` from such a peer, which nothing the peer holds can fail. -/
structure Asks (c : Call) (connection : Connection) (histories : Histories) (n : Nat) : Prop where
  connected : connectionFor c.chance c.store.libp2p c.options.peerId = .ok connection
  growing : Growing histories connection
  pos : 1 ≤ n
  size : c.options.pageSize.assign 10 = some n
  quiet : c.Quiet
  clean : ∀ k, ∀ e ∈ histories k c.criteria, ¬ c.Rejects e.2

section

variable {c : Call} {connection : Connection} {histories : Histories} {n k : Nat}
  {got rest : Entries} {r : Except Thrown QueryState}

theorem Asks.page (h : Asks c connection histories n)
    (hbehind : Behind (histories k c.criteria) (cursorAt (pagesOf c connection) k) rest) :
    ∃ reply, connection.exchange k (c.query k (cursorAt (pagesOf c connection) k)) = .ok reply ∧
      reply.response = some (pagesOf c connection k) ∧
      PageOf (rest.take n) (pagesOf c connection k) := by
  obtain ⟨reply, response, hreply, hresponse, hpage⟩ :=
    @Growing.answers histories connection h.growing k
      (c.query k (cursorAt (pagesOf c connection) k)) _ n rest rfl h.size h.pos hbehind
  have hat : pagesOf c connection k = response := by
    rw [pagesOf_eq, readAt, hreply, ok_bind, readReply, hresponse]
    simp [hpage.error, errorNoneUnspecified]
    rfl
  exact ⟨reply, hreply, by rw [hat, hresponse], by rw [hat]; exact hpage⟩

theorem PageOf.length {response : HistoryResponse} (h : PageOf (rest.take n) response) :
    response.messages.length = min n rest.length := by
  rw [h.messages, List.length_map, List.length_take]

/-- The call goes on after a full page. -/
theorem goesOn_iff_full (h : Asks c connection histories n)
    (hpage : PageOf (rest.take n) (pagesOf c connection k)) :
    GoesOn c (pagesOf c connection) k ↔ n ≤ rest.length := by
  have hn := h.pos
  have hlength := hpage.length
  have hshort : (pagesOf c connection k).messages ≠ [] →
      shortPage (c.query k (cursorAt (pagesOf c connection) k)) (pagesOf c connection k) =
        decide (rest.length < n) := by
    intro hne
    have hpos := List.length_pos_of_ne_nil hne
    rw [shortPage_eq h.size hn (hpage.pageSize hne) (by omega), hlength]
    exact decide_eq_decide.mpr (by omega)
  constructor
  · intro hgo
    have hfull := hgo.full
    rw [hshort hgo.messages] at hfull
    exact not_lt.mp (of_decide_eq_false hfull)
  · intro hle
    have hne : (pagesOf c connection k).messages ≠ [] :=
      List.ne_nil_of_length_pos (by omega)
    refine ⟨hne, ?_, ?_⟩
    · rw [hshort hne]
      exact decide_eq_false (by omega)
    · rcases List.eq_nil_or_concat (rest.take n) with hnil | ⟨page, e, hlast⟩
      · rw [hpage.messages, hnil] at hne
        exact absurd rfl hne
      · rw [hpage.cursor page e (hlast.trans List.concat_eq_append)]
        rfl

/-- Where the call is before query `k`, with `got` read and `rest` to be read. `I` is what they have
to do with the histories. -/
structure ReadTo (c : Call) (connection : Connection) (histories : Histories) (n : Nat)
    (I : Nat → Entries → Entries → Prop) (k : Nat) (got rest : Entries) : Prop where
  behind : Behind (histories k c.criteria) (cursorAt (pagesOf c connection) k) rest
  keeps : I k got rest
  length : got.length = k * n
  messages : ((List.range k).flatMap fun j => (pagesOf c connection j).messages) = got.map Prod.snd

/-- It holds at the start, and a page preserves it while the history becomes the next one. -/
structure Persists (c : Call) (histories : Histories) (n : Nat)
    (I : Nat → Entries → Entries → Prop) : Prop where
  start : I 0 [] (histories 0 c.criteria)
  page : ∀ {k got rest page e}, rest <:+ histories k c.criteria → I k got rest →
    rest.take n = page ++ [e] → ∃ rest', Behind (histories (k + 1) c.criteria) (some e.1) rest' ∧
      I (k + 1) (got ++ rest.take n) rest'

variable {I : Nat → Entries → Entries → Prop}

/-- A page that the call goes on from has a last message. -/
theorem Asks.page_last (h : Asks c connection histories n)
    (hpage : PageOf (rest.take n) (pagesOf c connection k))
    (hgo : GoesOn c (pagesOf c connection) k) : ∃ page e, rest.take n = page ++ [e] := by
  have hn := h.pos
  have hfull := (goesOn_iff_full h hpage).mp hgo
  rcases List.eq_nil_or_concat (rest.take n) with hnil | ⟨page, e, hlast⟩
  · have hlength := congrArg List.length hnil
    rw [List.length_take, List.length_nil] at hlength
    omega
  · exact ⟨page, e, hlast.trans List.concat_eq_append⟩

theorem ReadTo.start (h : I 0 [] (histories 0 c.criteria)) :
    ReadTo c connection histories n I 0 [] (histories 0 c.criteria) :=
  ⟨.start, h, (Nat.zero_mul n).symm, rfl⟩

/-- The call goes on behind the last message of the page. -/
theorem ReadTo.next (h : Asks c connection histories n)
    (hread : ReadTo c connection histories n I k got rest)
    (hgo : GoesOn c (pagesOf c connection) k) :
    ∃ page e, rest.take n = page ++ [e] ∧ cursorAt (pagesOf c connection) (k + 1) = some e.1 ∧
      ∀ rest', Behind (histories (k + 1) c.criteria) (some e.1) rest' →
        I (k + 1) (got ++ rest.take n) rest' →
          ReadTo c connection histories n I (k + 1) (got ++ rest.take n) rest' := by
  obtain ⟨_, _, _, hpage⟩ := h.page hread.behind
  have hfull := (goesOn_iff_full h hpage).mp hgo
  have hlength : (rest.take n).length = n := by
    rw [List.length_take]
    omega
  obtain ⟨page, e, hlast⟩ := h.page_last hpage hgo
  have hcursor : cursorAt (pagesOf c connection) (k + 1) = some e.1 := hpage.cursor page e hlast
  refine ⟨page, e, hlast, hcursor, fun rest' hbehind hkeeps => ⟨?_, hkeeps, ?_, ?_⟩⟩
  · rwa [hcursor]
  · rw [List.length_append, hread.length, hlength, Nat.succ_mul]
  · rw [List.range_succ, List.flatMap_append, hread.messages, List.flatMap_singleton,
      hpage.messages, List.map_append]

theorem readTo_reached (h : Asks c connection histories n) (hpersists : Persists c histories n I)
    (hreach : Reached c (pagesOf c connection) k) :
    ∃ got rest, ReadTo c connection histories n I k got rest := by
  induction k with
  | zero => exact ⟨[], _, .start hpersists.start⟩
  | succ k ih =>
    obtain ⟨got, rest, hread⟩ := ih fun j hj => hreach j (Nat.lt_succ_of_lt hj)
    obtain ⟨page, e, hlast, _, hnext⟩ := hread.next h (hreach k (Nat.lt_succ_self k))
    obtain ⟨rest', hbehind, hkeeps⟩ := hpersists.page hread.behind.suffix hread.keeps hlast
    exact ⟨_, rest', hnext rest' hbehind hkeeps⟩

theorem Asks.passes (h : Asks c connection histories n)
    (hbehind : Behind (histories k c.criteria) (cursorAt (pagesOf c connection) k) rest) :
    Passes c connection k := by
  obtain ⟨reply, hreply, hresponse, hpage⟩ := h.page hbehind
  refine ⟨h.growing.newStream k, createQuery_encodes h.size, ⟨reply, hreply, hresponse⟩, ?_, ?_,
    fun _ => h.quiet.hears _⟩
  · rw [hpage.error]
    decide
  · intro m hm
    rw [hpage.messages] at hm
    obtain ⟨e, he, rfl⟩ := List.mem_map.mp hm
    exact h.clean k e (hbehind.suffix.subset (List.mem_of_mem_take he))

/-- What a call has done that returns with `st` after query `k`. -/
structure Ended (c : Call) (k : Nat) (got : Entries) (st : QueryState) :
    Prop where
  rounds : st.queries.length = k + 1
  messages : st.messages.Perm ((got.map Prod.snd).filterMap c.decoded)

theorem ReadTo.ended (h : Asks c connection histories n)
    (hread : ReadTo c connection histories n I k got rest)
    (hstop : ¬ GoesOn c (pagesOf c connection) k)
    (hclean : ∀ j ≤ k, Clean c (pagesOf c connection) j) :
    Ended c k (got ++ rest) (lastState c (pagesOf c connection) k) := by
  obtain ⟨_, _, _, hpage⟩ := h.page hread.behind
  rw [goesOn_iff_full h hpage, not_le] at hstop
  refine ⟨?_, ?_⟩
  · rw [lastState_queries]
    simp [queriesUpTo]
  · have hperm := lastState_perm hclean
    rwa [List.range_succ, List.flatMap_append, hread.messages, List.flatMap_singleton,
      hpage.messages,
      List.take_of_length_le (Nat.le_of_lt hstop), ← List.map_append] at hperm

theorem settles_readTo (h : Asks c connection histories n) (hpersists : Persists c histories n I)
    (hr : Settles c r) :
    ∃ st k got rest, r = .ok st ∧ ReadTo c connection histories n I k got rest ∧
      rest.length < n ∧ Ended c k (got ++ rest) st := by
  have hread : ∀ {k}, Reached c (pagesOf c connection) k →
      ∃ got rest, ReadTo c connection histories n I k got rest :=
    readTo_reached h hpersists
  have hpasses : ∀ {k}, Reached c (pagesOf c connection) k → Passes c connection k := by
    intro k hreach
    obtain ⟨got, rest, hread⟩ := hread hreach
    exact h.passes hread.behind
  cases r with
  | error e =>
    obtain ⟨k, hreach, _, hfails⟩ := (rejected_iff h.connected).mp ⟨e, hr⟩
    exact absurd (hpasses hreach) hfails
  | ok st =>
    obtain ⟨k, rfl, hreach, hstop, hall⟩ := (returned_iff h.connected).mp hr
    obtain ⟨got, rest, hread⟩ := hread hreach
    obtain ⟨_, _, _, hpage⟩ := h.page hread.behind
    have hended := hread.ended h hstop fun j hj => (hall j hj).clean
    rw [goesOn_iff_full h hpage, not_le] at hstop
    exact ⟨_, k, got, rest, rfl, hread, hstop, hended⟩

/-- A query that would be answered with a short page, if the call got that far. -/
theorem settles_of_short (h : Asks c connection histories n)
    (hpersists : Persists c histories n I) (k : Nat)
    (hshort : ∀ got rest, ReadTo c connection histories n I k got rest → rest.length < n) :
    ∃ r, Settles c r := by
  by_cases hreach : Reached c (pagesOf c connection) k
  · obtain ⟨got, rest, hread⟩ := readTo_reached h hpersists hreach
    obtain ⟨_, _, _, hpage⟩ := h.page hread.behind
    refine @settles_of_not_goesOn c connection k h.connected fun hgo => ?_
    exact absurd ((goesOn_iff_full h hpage).mp hgo) (not_le.mpr (hshort got rest hread))
  · obtain ⟨j, hj⟩ := not_forall.mp hreach
    exact settles_of_not_goesOn h.connected (Classical.not_imp.mp hj).2

/-! ## Where the new messages go -/

theorem persists_reading
    (hgrows : ∀ k, (histories k c.criteria).Sublist (histories (k + 1) c.criteria)) :
    Persists c histories n fun k got rest =>
      Reading (histories 0 c.criteria) (histories k c.criteria) got rest where
  start := reading_start _
  page _ hread hpage := hread.step (hgrows _) hpage

theorem queryHistory_growing (h : Asks c connection histories n)
    (hgrows : ∀ k, (histories k c.criteria).Sublist (histories (k + 1) c.criteria)) :
    (∀ r, Settles c r → ∃ st k got, r = .ok st ∧ Ended c k got st ∧
        (histories 0 c.criteria).Sublist got ∧ got.Sublist (histories k c.criteria)) ∧
      ((∃ N, ∀ k, (histories k c.criteria).length ≤ N) → ∃ r, Settles c r) := by
  have hpersists := persists_reading (n := n) hgrows
  constructor
  · intro r hr
    obtain ⟨st, k, got, rest, hok, hread, _, hended⟩ :=
      settles_readTo h hpersists hr
    exact ⟨st, k, got ++ rest, hok, hended, hread.keeps.old, hread.keeps.now⟩
  · rintro ⟨N, hN⟩
    refine settles_of_short h hpersists (N + 1) fun got rest hread => ?_
    -- So many full pages would not fit into the history.
    have hle := hread.keeps.now.length_le
    have hbound := hN (N + 1)
    have hmul : (N + 1) * 1 ≤ (N + 1) * n := Nat.mul_le_mul_left _ h.pos
    rw [List.length_append, hread.length] at hle
    omega

theorem persists_ahead
    (hahead : ∀ k, ∃ new, histories (k + 1) c.criteria = new ++ histories k c.criteria) :
    Persists c histories n fun _ got rest => got ++ rest = histories 0 c.criteria := by
  refine ⟨rfl, fun {k got rest page e} hsuffix hkeeps hpage => ?_⟩
  obtain ⟨new, hnew⟩ := hahead k
  refine ⟨rest.drop n, ?_, ?_⟩
  · rw [hnew]
    exact (behind_page hsuffix hpage).ahead
  · change got ++ rest.take n ++ rest.drop n = histories 0 c.criteria
    rw [List.append_assoc, List.take_append_drop, hkeeps]

theorem queryHistory_snapshot (h : Asks c connection histories n)
    (hahead : ∀ k, ∃ new, histories (k + 1) c.criteria = new ++ histories k c.criteria) :
    ∃ st, (∀ r, Settles c r ↔ r = .ok st) ∧
      Ended c ((histories 0 c.criteria).length / n) (histories 0 c.criteria) st := by
  have hpersists := persists_ahead (n := n) hahead
  have hlength : ∀ {k got rest}, ReadTo c connection histories n
      (fun _ got rest => got ++ rest = histories 0 c.criteria) k got rest →
        (histories 0 c.criteria).length = rest.length + k * n := by
    intro k got rest hread
    rw [← hread.keeps, List.length_append, hread.length, Nat.add_comm]
  obtain ⟨r, hr⟩ := settles_of_short h hpersists ((histories 0 c.criteria).length / n)
    fun got rest hread => by
      have hmod := Nat.mod_lt (histories 0 c.criteria).length h.pos
      have hdiv := Nat.div_add_mod' (histories 0 c.criteria).length n
      have heq := hlength hread
      omega
  obtain ⟨st, k, got, rest, rfl, hread, hshort, hended⟩ := settles_readTo h hpersists hr
  have hk : (histories 0 c.criteria).length / n = k := by
    rw [hlength hread, Nat.add_mul_div_right _ _ h.pos, Nat.div_eq_of_lt hshort, Nat.zero_add]
  refine ⟨st, fun r => ⟨fun h' => settles_unique h' hr, fun h' => h' ▸ hr⟩, ?_⟩
  rw [hk]
  rw [hread.keeps] at hended
  exact hended

theorem persists_later
    (hlater : ∀ k, ∃ new, histories (k + 1) c.criteria = histories k c.criteria ++ new) :
    Persists c histories n fun k got rest => got ++ rest = histories k c.criteria := by
  refine ⟨rfl, fun {k got rest page e} hsuffix hkeeps hpage => ?_⟩
  obtain ⟨new, hnew⟩ := hlater k
  refine ⟨rest.drop n ++ new, ?_, ?_⟩
  · rw [hnew]
    exact (behind_page hsuffix hpage).later
  · change got ++ rest.take n ++ (rest.drop n ++ new) = histories (k + 1) c.criteria
    rw [List.append_assoc, ← List.append_assoc (rest.take n), List.take_append_drop, hnew, ← hkeeps,
      List.append_assoc]

theorem queryHistory_follows (h : Asks c connection histories n)
    (hlater : ∀ k, ∃ new, histories (k + 1) c.criteria = histories k c.criteria ++ new) :
    (∀ r, Settles c r → ∃ st k, r = .ok st ∧ Ended c k (histories k c.criteria) st) ∧
      ((∃ r, Settles c r) ↔ ∃ k, (histories k c.criteria).length < (k + 1) * n) := by
  have hpersists := persists_later (n := n) hlater
  have hlength : ∀ {k got rest}, ReadTo c connection histories n
      (fun k got rest => got ++ rest = histories k c.criteria) k got rest →
        (histories k c.criteria).length = k * n + rest.length := by
    intro k got rest hread
    rw [← hread.keeps, List.length_append, hread.length]
  refine ⟨fun r hr => ?_, fun ⟨r, hr⟩ => ?_, fun ⟨k, hk⟩ => ?_⟩
  · obtain ⟨st, k, got, rest, hok, hread, _, hended⟩ := settles_readTo h hpersists hr
    rw [hread.keeps] at hended
    exact ⟨st, k, hok, hended⟩
  · obtain ⟨st, k, got, rest, _, hread, hshort, _⟩ := settles_readTo h hpersists hr
    refine ⟨k, ?_⟩
    rw [hlength hread, Nat.succ_mul]
    omega
  · refine settles_of_short h hpersists k fun got rest hread => ?_
    rw [hlength hread, Nat.succ_mul] at hk
    omega

end

section

variable (H : Nat → Entries)

def entriesBehind (l : Entries) : Option Index → Option Entries
  | none => some l
  | some name =>
    match l.dropWhile fun e => e.1 ≠ name with
    | [] => none
    | _ :: rest => some rest

/-- A cursor that it does not know is invalid. -/
def growingResponse (k : Nat) (pagingInfo : PagingInfo) : HistoryResponse :=
  match entriesBehind (H k) pagingInfo.cursor with
  | none => ⟨[], none, errorInvalidCursor⟩
  | some rest =>
    let page := rest.take (pagingInfo.pageSize.getD 0)
    { messages := page.map Prod.snd
      pagingInfo := some ⟨some page.length, page.getLast?.map Prod.fst, pagingInfo.direction⟩
      error := errorNoneUnspecified }

def growingConnection : Connection where
  newStream _ := .ok ()
  exchange k rpc :=
    .ok ⟨rpc.requestId, none, (rpc.query.bind HistoryQuery.pagingInfo).map (growingResponse H k)⟩

variable {H}

/-- Each name stands for one entry. -/
theorem entriesBehind_eq {l rest : Entries} {cursor : Option Index}
    (hnames : (l.map Prod.fst).Nodup) (h : Behind l cursor rest) :
    entriesBehind l cursor = some rest := by
  cases h with
  | start => rfl
  | @past before e rest heq =>
    rw [heq, List.map_append, List.map_cons, List.nodup_middle, List.nodup_cons,
      List.mem_append, not_or] at hnames
    have hbefore : ∀ e' ∈ before, decide (e'.1 ≠ e.1) = true := by
      intro e' he'
      exact decide_eq_true fun hname => hnames.1.1 (List.mem_map.mpr ⟨e', he', hname⟩)
    rw [entriesBehind, heq, List.dropWhile_append_of_pos hbefore,
      List.dropWhile_cons_of_neg (by simp)]

theorem growingConnection_growing (hnames : ∀ k, ((H k).map Prod.fst).Nodup) :
    Growing (fun k _ => H k) (growingConnection H) where
  newStream _ := rfl
  answers := by
    intro k rpc q n rest hq hsize _ hbehind
    obtain ⟨pagingInfo, hpaging, hpageSize⟩ := Option.bind_eq_some_iff.mp hsize
    rw [hpaging, Option.bind_some] at hbehind
    refine ⟨_, growingResponse H k pagingInfo, rfl, by simp [hq, hpaging], ?_⟩
    rw [growingResponse, entriesBehind_eq (hnames k) hbehind, hpageSize, Option.getD_some]
    refine ⟨rfl, rfl, fun _ => ?_, fun page e hlast => ?_⟩
    · simp
    · simp [HistoryResponse.cursor, hlast]

end

namespace Arriving

/-- Three messages, and what is there when the second query arrives. -/
def entries (later : List UInt8) (k : Nat) : Entries :=
  (if k = 0 then [1, 2, 3] else later).map fun i => (⟨[i], 0, 0⟩, Three.message i)

def call (later : List UInt8) : Call :=
  { Three.call with
    store := .new ⟨[⟨"store", [storeCodec]⟩], fun _ => some (growingConnection (entries later))⟩
      none }

theorem asks {later : List UInt8} (hlater : later.Nodup) :
    Asks (call later) (growingConnection (entries later)) (fun k _ => entries later k) 2 where
  connected := rfl
  growing := by
    refine growingConnection_growing fun k => ?_
    have hnodup : (if k = 0 then [1, 2, 3] else later).Nodup := by
      split
      · decide
      · exact hlater
    rw [entries, List.map_map]
    exact hnodup.map fun i j hij => (List.cons.inj (congrArg Index.digest hij)).1
  pos := by decide
  size := rfl
  quiet := by rintro _ ⟨⟩
  clean k e he := by
    obtain ⟨i, _, rfl⟩ := List.mem_map.mp he
    exact not_throws_ok _

theorem grows {later : List UInt8} (hsub : [1, 2, 3].Sublist later) (k : Nat) :
    (entries later k).Sublist (entries later (k + 1)) := by
  cases k with
  | zero => exact hsub.map _
  | succ k => exact .refl _

end Arriving

/-- One comes in between the first and the second. -/
theorem queryHistory_growing_between : ∃ st k got, Settles (Arriving.call [1, 9, 2, 3]) (.ok st) ∧
    Ended (Arriving.call [1, 9, 2, 3]) k got st ∧
      (Arriving.entries [1, 9, 2, 3] 0).Sublist got := by
  obtain ⟨hended, hsettles⟩ := queryHistory_growing (@Arriving.asks [1, 9, 2, 3] (by decide))
    (Arriving.grows (by decide))
  have hbound : ∀ k, (Arriving.entries [1, 9, 2, 3] k).length ≤ 4 := by
    intro k
    cases k with
    | zero => decide
    | succ k => exact Nat.le_refl 4
  obtain ⟨r, hr⟩ := hsettles ⟨4, hbound⟩
  obtain ⟨st, k, got, rfl, hst, hgot, _⟩ := hended r hr
  exact ⟨st, k, got, hr, hst, hgot⟩

/-- Two come in ahead of the others: the call asks twice, as it does if none comes in. -/
theorem queryHistory_snapshot_ahead : ∃ st, Settles (Arriving.call [8, 9, 1, 2, 3]) (.ok st) ∧
    Ended (Arriving.call [8, 9, 1, 2, 3]) 1 (Arriving.entries [] 0) st := by
  have hahead : ∀ k, ∃ new, Arriving.entries [8, 9, 1, 2, 3] (k + 1) =
      new ++ Arriving.entries [8, 9, 1, 2, 3] k := by
    intro k
    cases k with
    | zero => exact ⟨(Arriving.entries [8, 9] 1), rfl⟩
    | succ k => exact ⟨[], rfl⟩
  obtain ⟨st, hst, hended⟩ :=
    queryHistory_snapshot (@Arriving.asks [8, 9, 1, 2, 3] (by decide)) hahead
  exact ⟨st, (hst _).mpr rfl, hended⟩

/-- One comes in at the end: the call asks once more, since a page may follow a full one. -/
theorem queryHistory_follows_later : ∃ st k, Settles (Arriving.call [1, 2, 3, 4]) (.ok st) ∧
    Ended (Arriving.call [1, 2, 3, 4]) k (Arriving.entries [1, 2, 3, 4] k) st := by
  have hlater : ∀ k, ∃ new, Arriving.entries [1, 2, 3, 4] (k + 1) =
      Arriving.entries [1, 2, 3, 4] k ++ new := by
    intro k
    cases k with
    | zero => exact ⟨(Arriving.entries [4] 1), rfl⟩
    | succ k => exact ⟨[], by rw [List.append_nil]; rfl⟩
  obtain ⟨hended, hsettles⟩ :=
    queryHistory_follows (@Arriving.asks [1, 2, 3, 4] (by decide)) hlater
  obtain ⟨r, hr⟩ := hsettles.mpr ⟨2, by decide⟩
  obtain ⟨st, k, rfl, hst⟩ := hended r hr
  exact ⟨st, k, hr, hst⟩

end Store
end JsWaku
