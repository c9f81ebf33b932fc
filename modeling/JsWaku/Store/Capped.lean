import JsWaku.Store.Paging
import JsWaku.Store.Rounds

/-!
# JsWaku.Store.Capped

A history read from a peer that sends no more than so many messages at a time.

* `Caps`             — the peer answers a query for `n` messages with the next `min n cap`.
* `returned_capped`  — a call that asks for more than the cap takes its first page for the last one,
  and returns no more than that.
* `pageSize_hint_iff` — two page sizes give the same messages exactly when the cap is above both or
  below both, or nothing behind the first page decodes.
-/

namespace JsWaku
namespace Store

open Js WhileLoop

/-- Pages of at most `cap` messages, however many are asked for. -/
def StorePeer.Caps (peer : StorePeer) (connection : Connection) (cap : Nat) : Prop :=
  ∀ n, 1 ≤ n → peer.Answers connection n (min n cap)

/-- What a call that asks for `n` messages at a time reads of a history. -/
def withinCap (cap n : Nat) (H : List Proto.WakuMessage) : List Proto.WakuMessage :=
  if n ≤ cap then H else H.take cap

/-- The call with another page size, and whatever chance then decides. -/
def Call.sized (c : Call) (n : Nat) (chance : Chance) : Call :=
  { c with options := { c.options with pageSize := .value n }, chance := chance }

section

variable {c : Call} {connection : Connection} {peer : StorePeer} {n m cap k : Nat}

/-- A page below the page size is the last one. -/
theorem first_page (hs : peer.Answers connection n m) (hm : m < n)
    (hsize : c.options.pageSize.assign 10 = some n) :
    ¬ GoesOn c (pagesOf c connection) 0 ∧
      (pagesOf c connection 0).messages = (peer.select c.criteria).take m := by
  obtain ⟨_, _, _, hpage⟩ := exchange_page (c := c) (k := 0) hs hsize .start
  have hpage : peer.Page c.criteria 0 m (pagesOf c connection 0) := hpage
  have hmessages : (pagesOf c connection 0).messages = (peer.select c.criteria).take m :=
    hpage.messages
  refine ⟨fun hgo => ?_, hmessages⟩
  have hpos := List.length_pos_of_ne_nil hgo.messages
  have hlen : (pagesOf c connection 0).messages.length ≤ m := by
    rw [hmessages]
    exact List.length_take_le _ _
  have hfull := hgo.full
  rw [shortPage_eq hsize (by omega) (hpage.pageSize hgo.messages) (Nat.ne_of_gt hpos)] at hfull
  exact of_decide_eq_false hfull (Nat.lt_of_le_of_lt hlen hm)

theorem answers_capped (hs : peer.Caps connection cap) (hn : 1 ≤ n) :
    n ≤ cap ∧ peer.Answers connection n n ∨ cap < n ∧ peer.Answers connection n cap := by
  have hanswers := hs n hn
  rcases Nat.lt_or_ge cap n with hlt | hle
  · rw [Nat.min_eq_right (Nat.le_of_lt hlt)] at hanswers
    exact .inr ⟨hlt, hanswers⟩
  · rw [Nat.min_eq_left hle] at hanswers
    exact .inl ⟨hle, hanswers⟩

/-- The page a call ends with, and what the pages up to it hold together. -/
theorem ends_capped (hs : peer.Caps connection cap) (hn : 1 ≤ n)
    (hsize : c.options.pageSize.assign 10 = some n) :
    ∃ k, Reached c (pagesOf c connection) k ∧ ¬ GoesOn c (pagesOf c connection) k ∧
      ((List.range (k + 1)).flatMap fun j => (pagesOf c connection j).messages) =
        withinCap cap n (peer.select c.criteria) := by
  rw [withinCap]
  rcases answers_capped hs hn with ⟨hle, hanswers⟩ | ⟨hlt, hanswers⟩
  · rw [if_pos hle]
    exact ⟨_, (reached_after hanswers hn hsize (Nat.le_refl _)).1, last_page hanswers hn hsize,
      flatMap_pagesOf hanswers hn hsize⟩
  · obtain ⟨hstop, hmessages⟩ := first_page hanswers hlt hsize
    rw [if_neg (Nat.not_le.mpr hlt)]
    refine ⟨0, fun j hj => by omega, hstop, ?_⟩
    simpa using hmessages

theorem replays_capped (hs : peer.Caps connection cap) (hn : 1 ≤ n)
    (hsize : c.options.pageSize.assign 10 = some n) :
    Replays c (pagesOf c connection) connection := by
  rcases answers_capped hs hn with ⟨_, hanswers⟩ | ⟨hlt, hanswers⟩
  · exact replays_pagesOf hanswers hn hsize
  · obtain ⟨hstop, _⟩ := first_page hanswers hlt hsize
    refine ⟨⟨n, hsize⟩, fun k _ => hanswers.newStream k, fun k hreach => ?_⟩
    have hk : k = 0 := by
      by_contra hne
      exact hstop (hreach 0 (Nat.pos_of_ne_zero hne))
    subst hk
    obtain ⟨reply, hreply, hread, _⟩ := exchange_page (c := c) (k := 0) hanswers hsize .start
    exact ⟨reply, hreply, hread⟩

theorem settles_capped
    (hconn : connectionFor c.chance c.store.libp2p c.options.peerId = .ok connection)
    (hs : peer.Caps connection cap) (hn : 1 ≤ n) (hsize : c.options.pageSize.assign 10 = some n) :
    ∃ r, Settles c r := by
  obtain ⟨k, _, hstop, _⟩ := ends_capped hs hn hsize
  exact settles_of_not_goesOn hconn hstop

theorem returns_capped
    (hconn : connectionFor c.chance c.store.libp2p c.options.peerId = .ok connection)
    (hs : peer.Caps connection cap) (hn : 1 ≤ n) (hsize : c.options.pageSize.assign 10 = some n)
    (hq : c.Quiet) (hclean : ∀ m ∈ peer.select c.criteria, ¬ c.Rejects m) :
    ∃ st, Settles c (.ok st) := by
  obtain ⟨k, hreach, hstop, hflat⟩ := ends_capped hs hn hsize
  refine ⟨_, (settles_ok_iff hconn (replays_capped hs hn hsize) hq).mpr
    ⟨k, hreach, hstop, fun j hj m hm => hclean m ?_, rfl⟩⟩
  have hin : m ∈ withinCap cap n (peer.select c.criteria) := by
    rw [← hflat]
    exact List.mem_flatMap.mpr ⟨j, List.mem_range.mpr (Nat.lt_succ_of_le hj), hm⟩
  unfold withinCap at hin
  split at hin
  · exact hin
  · exact List.mem_of_mem_take hin

theorem returned_capped
    (hconn : connectionFor c.chance c.store.libp2p c.options.peerId = .ok connection)
    (hs : peer.Caps connection cap) (hn : 1 ≤ n) (hsize : c.options.pageSize.assign 10 = some n)
    {st : QueryState} (h : Settles c (.ok st)) :
    st.messages.Perm ((withinCap cap n (peer.select c.criteria)).filterMap c.decoded) := by
  obtain ⟨k, hreach, hstop, hflat⟩ := ends_capped hs hn hsize
  obtain ⟨rfl, hclean⟩ := returned_at hconn hreach hstop h
  rw [← hflat]
  exact lastState_perm hclean

end

/-! ## Two calls -/

theorem filterMap_take_perm_iff {α β : Type} {f : α → Option β} {l : List α} {k : Nat} :
    (l.filterMap f).Perm ((l.take k).filterMap f) ↔ (l.drop k).filterMap f = [] := by
  have hsplit : l.filterMap f = (l.take k).filterMap f ++ (l.drop k).filterMap f := by
    rw [← List.filterMap_append, List.take_append_drop]
  constructor
  · intro h
    have hlength := h.length_eq
    rw [hsplit, List.length_append] at hlength
    exact List.length_eq_zero_iff.mp (by omega)
  · intro h
    rw [hsplit, h, List.append_nil]

theorem withinCap_perm_iff {β : Type} {f : Proto.WakuMessage → Option β} {cap n m : Nat}
    {H : List Proto.WakuMessage} :
    ((withinCap cap n H).filterMap f).Perm ((withinCap cap m H).filterMap f) ↔
      (n ≤ cap ↔ m ≤ cap) ∨ (H.drop cap).filterMap f = [] := by
  unfold withinCap
  by_cases hn : n ≤ cap <;> by_cases hm : m ≤ cap
  · simp [hn, hm]
  · simp only [hn, hm, ite_true, ite_false, iff_false, not_true, false_or]
    exact filterMap_take_perm_iff
  · simp only [hn, hm, ite_true, ite_false, iff_true, false_or]
    rw [List.perm_comm]
    exact filterMap_take_perm_iff
  · simp [hn, hm]

/-- How two calls on the same history compare. -/
structure Compared (c c' : Call) (H : List Proto.WakuMessage) (same : Prop) : Prop where
  settles : (∃ r, Settles c r) ∧ ∃ r, Settles c' r
  returns : c.Quiet → (∀ m ∈ H, ¬ c.Rejects m) →
    (∃ st, Settles c (.ok st)) ∧ ∃ st, Settles c' (.ok st)
  messages : ∀ st st', Settles c (.ok st) → Settles c' (.ok st') →
    (st.messages.Perm st'.messages ↔ same)

theorem pageSize_hint_iff {c : Call} {connection connection' : Connection} {peer : StorePeer}
    {chance chance' : Chance} {cap n m : Nat}
    (hconn : connectionFor chance c.store.libp2p c.options.peerId = .ok connection)
    (hconn' : connectionFor chance' c.store.libp2p c.options.peerId = .ok connection')
    (hs : peer.Caps connection cap) (hs' : peer.Caps connection' cap) (hn : 1 ≤ n) (hm : 1 ≤ m) :
    Compared (c.sized n chance) (c.sized m chance') (peer.select c.criteria)
      ((n ≤ cap ↔ m ≤ cap) ∨ ((peer.select c.criteria).drop cap).filterMap c.decoded = []) := by
  constructor
  · exact ⟨settles_capped (c := c.sized n chance) hconn hs hn rfl,
      settles_capped (c := c.sized m chance') hconn' hs' hm rfl⟩
  · intro hq hclean
    exact ⟨returns_capped (c := c.sized n chance) hconn hs hn rfl hq hclean,
      returns_capped (c := c.sized m chance') hconn' hs' hm rfl hq hclean⟩
  · intro st st' hst hst'
    have hread : st.messages.Perm
        ((withinCap cap n (peer.select c.criteria)).filterMap c.decoded) :=
      returned_capped (c := c.sized n chance) hconn hs hn rfl hst
    have hread' : st'.messages.Perm
        ((withinCap cap m (peer.select c.criteria)).filterMap c.decoded) :=
      returned_capped (c := c.sized m chance') hconn' hs' hm rfl hst'
    rw [← withinCap_perm_iff]
    exact ⟨fun h => hread.symm.trans (h.trans hread'), fun h => hread.trans (h.trans hread'.symm)⟩

section

variable (H : List Proto.WakuMessage) (cap : Nat)

/-- What it makes of a request. -/
def cappedInfo (pagingInfo : PagingInfo) : PagingInfo :=
  ⟨pagingInfo.pageSize.map (min · cap), pagingInfo.cursor, pagingInfo.direction⟩

def cappedConnection : Connection where
  newStream _ := .ok ()
  exchange _ rpc :=
    .ok ⟨rpc.requestId, none, (rpc.query.bind HistoryQuery.pagingInfo).map fun pagingInfo =>
      listResponse H (cappedInfo cap pagingInfo)⟩

/-- Asked for `n` messages, it does what the uncapped peer does asked for `min n cap`. -/
theorem cappedConnection_caps (hcap : 1 ≤ cap) :
    (listPeer H).Caps (cappedConnection H cap) cap := by
  intro n hn
  refine ⟨fun _ => rfl, fun {k rpc q start} hquery hsize hafter => ?_⟩
  obtain ⟨pagingInfo, hpaging, hpageSize⟩ := Option.bind_eq_some_iff.mp hsize
  rw [hpaging, Option.bind_some] at hafter
  have hlower : 1 ≤ min n cap := by omega
  have hsize' : (some (cappedInfo cap pagingInfo)).bind PagingInfo.pageSize = some (min n cap) := by
    simp [cappedInfo, hpageSize]
  have hcriteria : q.criteria =
      { q with pagingInfo := some (cappedInfo cap pagingInfo) : HistoryQuery }.criteria := by
    simp [HistoryQuery.criteria, hpaging, cappedInfo]
  rw [hcriteria] at hafter ⊢
  obtain ⟨reply, response, hreply, hresponse, hpage⟩ := @StorePeer.Serves.answers _ _
    (listConnection_serves H) k ⟨rpc.requestId,
      some { q with pagingInfo := some (cappedInfo cap pagingInfo) }, none⟩ _ start (min n cap) rfl
    hsize' hlower hafter
  cases hreply
  cases hresponse
  exact ⟨_, _, rfl, by simp [hquery, hpaging], hpage⟩

end

namespace OneByOne

def libp2p : Libp2p :=
  ⟨[⟨"store", [storeCodec]⟩], fun _ => some (cappedConnection Three.history 1)⟩

/-- Three clear messages, at a peer with a cap of one. -/
def call : Call := { Three.call with store := .new libp2p none }

theorem connects : connectionFor Chance.inTurn call.store.libp2p call.options.peerId =
    .ok (cappedConnection Three.history 1) := rfl

theorem caps : (listPeer Three.history).Caps (cappedConnection Three.history 1) 1 :=
  cappedConnection_caps _ 1 (by decide)

theorem quiet (n : Nat) : (call.sized n .inTurn).Quiet := by
  rintro _ ⟨⟩

end OneByOne

theorem pageSize_hint_one_by_one :
    Compared (OneByOne.call.sized 1 .inTurn) (OneByOne.call.sized 2 .inTurn) Three.history
      ((1 ≤ 1 ↔ 2 ≤ 1) ∨ (Three.history.drop 1).filterMap OneByOne.call.decoded = []) :=
  pageSize_hint_iff OneByOne.connects OneByOne.connects OneByOne.caps OneByOne.caps (by decide)
    (by decide)

/-- Asked for two at a time, it seems to be done after the first. -/
theorem one_by_one_loses_two : ∃ st st',
    Settles (OneByOne.call.sized 1 .inTurn) (.ok st) ∧
      Settles (OneByOne.call.sized 2 .inTurn) (.ok st') ∧
      st.messages.length = 3 ∧ st'.messages.length = 1 ∧ ¬ st.messages.Perm st'.messages := by
  obtain ⟨st, hst⟩ := returns_capped (c := OneByOne.call.sized 1 .inTurn) OneByOne.connects
    OneByOne.caps (by decide) rfl (OneByOne.quiet 1) Three.clean
  obtain ⟨st', hst'⟩ := returns_capped (c := OneByOne.call.sized 2 .inTurn) OneByOne.connects
    OneByOne.caps (by decide) rfl (OneByOne.quiet 2) Three.clean
  have hperm := returned_capped (c := OneByOne.call.sized 1 .inTurn) OneByOne.connects
    OneByOne.caps (by decide) rfl hst
  have hperm' := returned_capped (c := OneByOne.call.sized 2 .inTurn) OneByOne.connects
    OneByOne.caps (by decide) rfl hst'
  have hlength : st.messages.length = 3 := hperm.length_eq
  have hlength' : st'.messages.length = 1 := hperm'.length_eq
  refine ⟨st, st', hst, hst', hlength, hlength', fun h => ?_⟩
  have hsame := h.length_eq
  omega

end Store
end JsWaku
