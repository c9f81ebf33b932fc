import JsWaku.Store.Paging

/-!
# JsWaku.Store.Isolation

What one stored message can do to a query.

* `Hostile`      — a message that decrypts under a supplied key to a byte string the envelope
  parser throws on.
* `Isolates`     — a query over given pages never fails, returns whatever decodes in the pages it
  reads, and is not affected by messages that do not decode.
* `Exhausted`    — the query ends after a page, with nothing more that decodes.
* `isolates_iff` — it does so exactly when no page that it reaches has a hostile message, and each
  such page with but one message that does not decode is followed by nothing that does.
-/

namespace JsWaku
namespace Store

open Js WhileLoop Version1

def Hostile (c : Call) (m : Proto.WakuMessage) : Prop :=
  ∃ payload keys dec, m.payload = some payload ∧ m.version = some 1 ∧
    c.options.decryptionKeys = some keys ∧ firstDecrypted c.libs c.rt payload keys = some dec ∧
    Malformed c.libs dec

/-- A peer that sends the given pages one after the other, whatever it is asked. -/
def pageConnection (pages : Nat → HistoryResponse) : Connection where
  newStream _ := .ok ()
  exchange k _ := .ok ⟨"", none, some (pages k)⟩

/-- The call, made over that peer. -/
def Call.over (c : Call) (pages : Nat → HistoryResponse) : Call :=
  { c with store := { c.store with libp2p :=
      { c.store.libp2p with connectionManager := fun _ => some (pageConnection pages) } } }

/-- The pages with other messages in page `k`. -/
def withMessages (pages : Nat → HistoryResponse) (k : Nat) (messages : List Proto.WakuMessage) :
    Nat → HistoryResponse :=
  fun j => if j = k then { pages k with messages := messages } else pages j

structure Isolates (c : Call) (pages : Nat → HistoryResponse) : Prop where
  returns : ∀ e, ¬ Settles (c.over pages) (.error e)
  complete : ∀ st, Settles (c.over pages) (.ok st) → st.messages.Perm
    (((List.range st.queries.length).flatMap fun j => (pages j).messages).filterMap c.decoded)
  unaffected : ∀ k before m after, (pages k).messages = before ++ m :: after → c.decoded m = none →
    ∀ st₀, Settles (c.over (withMessages pages k (before ++ after))) (.ok st₀) →
      ∃ st, Settles (c.over pages) (.ok st) ∧ st.messages.Perm st₀.messages

/-- The query ends after page `k`, and nothing decodes in the pages behind it. -/
def Exhausted (c : Call) (pages : Nat → HistoryResponse) (k : Nat) : Prop :=
  ∃ n, k ≤ n ∧ Reached c pages n ∧ ¬ GoesOn c pages n ∧
    ∀ j, k < j → j ≤ n → (pages j).messages.filterMap c.decoded = []

section

variable {c : Call} {pages : Nat → HistoryResponse} {k n : Nat}

theorem rejects_iff_hostile {m : Proto.WakuMessage} : c.Rejects m ↔ Hostile c m :=
  throws_decodeProto

/-- Which peer is chosen does not depend on the connections. -/
theorem connectionFor_over {connection : Connection}
    (h : connectionFor c.chance c.store.libp2p c.options.peerId = .ok connection) :
    connectionFor (c.over pages).chance (c.over pages).store.libp2p (c.over pages).options.peerId =
      .ok (pageConnection pages) := by
  obtain ⟨peer, hpeer, hconnect⟩ := bind_eq_ok h
  have hpeer' : choosePeer (c.over pages).chance (c.over pages).store.libp2p
      (c.over pages).options.peerId = .ok peer := hpeer
  rw [connectionFor, hpeer', ok_bind]
  unfold connectTo at hconnect ⊢
  split at hconnect
  · cases hconnect
  · split at hconnect
    · rename_i hprotocol
      simp only [hprotocol, ite_true]
      rfl
    · cases hconnect

theorem replays_over (hsize : c.options.pageSize.assign 10 = some n)
    (herror : ∀ k, (pages k).error = errorNoneUnspecified) :
    Replays (c.over pages) pages (pageConnection pages) where
  pageSize := ⟨n, hsize⟩
  newStream _ _ := rfl
  reply k _ := ⟨_, rfl, by simp [readReply, herror k, errorNoneUnspecified]⟩

/-- A call over pages its queries can all be answered from. -/
structure Readable (c : Call) : Prop where
  reachable : ∃ connection,
    connectionFor c.chance c.store.libp2p c.options.peerId = .ok connection
  pageSize : ∃ n, c.options.pageSize.assign 10 = some n
  quiet : c.Quiet

theorem goesOn_over {pages' : Nat → HistoryResponse} :
    GoesOn (c.over pages') pages k ↔ GoesOn c pages k :=
  ⟨fun h => ⟨h.messages, h.full, h.cursor⟩, fun h => ⟨h.messages, h.full, h.cursor⟩⟩

theorem reached_over {pages' : Nat → HistoryResponse} :
    Reached (c.over pages') pages k ↔ Reached c pages k := by
  simp only [Reached, goesOn_over]

theorem over_ok_iff (hc : Readable c) (herror : ∀ k, (pages k).error = errorNoneUnspecified)
    {st : QueryState} :
    Settles (c.over pages) (.ok st) ↔ ∃ k, Reached c pages k ∧ ¬ GoesOn c pages k ∧
      (∀ j ≤ k, Clean c pages j) ∧ st = lastState (c.over pages) pages k := by
  obtain ⟨_, hconn⟩ := hc.reachable
  obtain ⟨_, hsize⟩ := hc.pageSize
  rw [settles_ok_iff (connectionFor_over hconn) (replays_over hsize herror) hc.quiet]
  simp only [reached_over, goesOn_over]
  rfl

theorem over_error_iff (hc : Readable c) (herror : ∀ k, (pages k).error = errorNoneUnspecified) :
    (∃ e, Settles (c.over pages) (.error e)) ↔
      ∃ k, Reached c pages k ∧ (∀ j < k, Clean c pages j) ∧ ¬ Clean c pages k := by
  obtain ⟨_, hconn⟩ := hc.reachable
  obtain ⟨_, hsize⟩ := hc.pageSize
  rw [settles_error_iff (connectionFor_over hconn) (replays_over hsize herror) hc.quiet]
  simp only [reached_over]
  rfl

/-! ## Taking a message out of a page -/

section

variable {messages : List Proto.WakuMessage}

@[simp] theorem withMessages_same :
    (withMessages pages k messages k).messages = messages := by simp [withMessages]

theorem withMessages_other {j : Nat} (h : j ≠ k) : withMessages pages k messages j = pages j := by
  simp [withMessages, h]

@[simp] theorem withMessages_pagingInfo (j : Nat) :
    (withMessages pages k messages j).pagingInfo = (pages j).pagingInfo := by
  unfold withMessages
  split
  · rename_i h; rw [h]
  · rfl

@[simp] theorem withMessages_error (j : Nat) :
    (withMessages pages k messages j).error = (pages j).error := by
  unfold withMessages
  split
  · rename_i h; rw [h]
  · rfl

theorem cursorAt_withMessages (j : Nat) :
    cursorAt (withMessages pages k messages) j = cursorAt pages j := by
  cases j with
  | zero => rfl
  | succ j => simp [cursorAt, HistoryResponse.cursor]

/-- Whether the loop goes on is up to the paging info and to whether the page is empty. -/
theorem goesOn_withMessages {j : Nat}
    (h : GoesOn c (withMessages pages k messages) j) (hk : j = k → (pages k).messages ≠ []) :
    GoesOn c pages j := by
  have hfull := h.full
  have hcursor := h.cursor
  simp only [shortPage, HistoryResponse.cursor, withMessages_pagingInfo,
    cursorAt_withMessages] at hfull hcursor
  refine ⟨?_, hfull, hcursor⟩
  by_cases hj : j = k
  · rw [hj]; exact hk hj
  · have hmessages := h.messages
    rwa [withMessages_other hj] at hmessages

theorem withMessages_withMessages {messages' : List Proto.WakuMessage} :
    withMessages (withMessages pages k messages) k messages' = withMessages pages k messages' := by
  funext j
  unfold withMessages
  split <;> simp

theorem withMessages_self : withMessages pages k (pages k).messages = pages := by
  funext j
  unfold withMessages
  split
  · rename_i h; rw [h]
  · rfl

end

section

variable {before after : List Proto.WakuMessage} {m : Proto.WakuMessage}

/-- The decodable messages of a page do not depend on one that does not decode. -/
theorem filterMap_without (hk : (pages k).messages = before ++ m :: after)
    (hm : c.decoded m = none) (j : Nat) :
    (withMessages pages k (before ++ after) j).messages.filterMap c.decoded =
      (pages j).messages.filterMap c.decoded := by
  by_cases hj : j = k
  · rw [hj, withMessages_same, hk]
    simp [hm]
  · rw [withMessages_other hj]

theorem clean_without (hk : (pages k).messages = before ++ m :: after) {j : Nat}
    (h : Clean c pages j) : Clean c (withMessages pages k (before ++ after)) j := by
  intro x hx
  refine h x ?_
  by_cases hj : j = k
  · rw [hj, withMessages_same] at hx
    rw [hj, hk]
    simp only [List.mem_append, List.mem_cons] at hx ⊢
    tauto
  · rwa [withMessages_other hj] at hx

theorem goesOn_without (hk : (pages k).messages = before ++ m :: after) {j : Nat}
    (h : GoesOn c (withMessages pages k (before ++ after)) j) : GoesOn c pages j :=
  goesOn_withMessages h fun _ => by simp [hk]

theorem goesOn_with {j : Nat} (hne : j = k → before ++ after ≠ []) (h : GoesOn c pages j) :
    GoesOn c (withMessages pages k (before ++ after)) j := by
  have hback : withMessages (withMessages pages k (before ++ after)) k (pages k).messages = pages := by
    rw [withMessages_withMessages, withMessages_self]
  rw [← hback] at h
  exact goesOn_withMessages h fun hj => by rw [withMessages_same]; exact hne hj

/-- The messages returned after round `k`, up to order. -/
theorem over_perm (hclean : ∀ j ≤ k, Clean c pages j) :
    (lastState (c.over pages) pages k).messages.Perm
      ((List.range (k + 1)).flatMap fun j => (pages j).messages.filterMap c.decoded) := by
  have h := @lastState_perm (c.over pages) pages k hclean
  rwa [List.filterMap_flatMap] at h

theorem flatMap_upTo {α : Type} (f : Nat → List α) (hle : k ≤ n) :
    (List.range (n + 1)).flatMap f =
      (List.range (k + 1)).flatMap f ++ (List.range (n - k)).flatMap fun d => f (k + 1 + d) := by
  rw [show n + 1 = k + 1 + (n - k) by omega, List.range_add, List.flatMap_append, List.flatMap_map]

/-- Pages in which nothing decodes add nothing. -/
theorem upTo_perm_iff (hle : k ≤ n) :
    ((List.range (n + 1)).flatMap fun j => (pages j).messages.filterMap c.decoded).Perm
        ((List.range (k + 1)).flatMap fun j => (pages j).messages.filterMap c.decoded) ↔
      ∀ j, k < j → j ≤ n → (pages j).messages.filterMap c.decoded = [] := by
  rw [flatMap_upTo _ hle]
  constructor
  · intro h j hkj hjn
    have hlength := h.length_eq
    rw [List.length_append, Nat.add_eq_left, List.length_eq_zero_iff, List.flatMap_eq_nil_iff]
      at hlength
    have hnil := hlength (j - (k + 1)) (List.mem_range.mpr (by omega))
    rwa [Nat.add_sub_cancel' hkj] at hnil
  · intro h
    have hnil : ((List.range (n - k)).flatMap fun d =>
        (pages (k + 1 + d)).messages.filterMap c.decoded) = [] :=
      List.flatMap_eq_nil_iff.mpr fun d hd => by
        have hlt := List.mem_range.mp hd
        exact h (k + 1 + d) (by omega) (by omega)
    rw [hnil, List.append_nil]

/-- What a call returns without a message that does not decode, it returns with it. -/
theorem without_returns (hc : Readable c) (herror : ∀ k, (pages k).error = errorNoneUnspecified)
    (hclean : ∀ k, Reached c pages k → ∀ j ≤ k, Clean c pages j)
    (halone : before ++ after = [] → Reached c pages k → Exhausted c pages k)
    (hk : (pages k).messages = before ++ m :: after) (hm : c.decoded m = none) {st₀ : QueryState}
    (hst₀ : Settles (c.over (withMessages pages k (before ++ after))) (.ok st₀)) :
    ∃ st, Settles (c.over pages) (.ok st) ∧ st.messages.Perm st₀.messages := by
  have herror₀ : ∀ j, (withMessages pages k (before ++ after) j).error = errorNoneUnspecified := by
    simpa using herror
  obtain ⟨n₀, hreach₀, hstop₀, _, rfl⟩ := (over_ok_iff hc herror₀).mp hst₀
  have hreach : Reached c pages n₀ := fun j hj => goesOn_without hk (hreach₀ j hj)
  have hperm₀ := over_perm fun j hj => clean_without hk (hclean n₀ hreach j hj)
  simp only [filterMap_without hk hm] at hperm₀
  by_cases hgo : GoesOn c pages n₀
  · -- Without the message the page is empty, and the query ends there.
    obtain ⟨rfl, hempty⟩ : n₀ = k ∧ before ++ after = [] := by
      by_contra hnot
      exact hstop₀ (goesOn_with (fun hj hnil => hnot ⟨hj, hnil⟩) hgo)
    obtain ⟨n, hle, hreach', hstop, hnothing⟩ := halone hempty hreach
    refine ⟨_, (over_ok_iff hc herror).mpr ⟨n, hreach', hstop, hclean n hreach', rfl⟩, ?_⟩
    exact (over_perm (hclean n hreach')).trans
      (((upTo_perm_iff hle).mpr hnothing).trans hperm₀.symm)
  · exact ⟨_, (over_ok_iff hc herror).mpr ⟨n₀, hreach, hgo, hclean n₀ hreach, rfl⟩,
      (over_perm (hclean n₀ hreach)).trans hperm₀.symm⟩

end

/-- The first page with a message that rejects, rejects the whole call. -/
theorem clean_of_returns (hc : Readable c) (herror : ∀ k, (pages k).error = errorNoneUnspecified)
    (hreturns : ∀ e, ¬ Settles (c.over pages) (.error e)) (hreach : Reached c pages k) :
    Clean c pages k := by
  induction k using Nat.strongRecOn with
  | ind k ih =>
    by_contra hdirty
    have hbefore : ∀ j < k, Clean c pages j := fun j hj => ih j hj fun i hi => hreach i (by omega)
    obtain ⟨e, he⟩ := (over_error_iff hc herror).mpr ⟨k, hreach, hbefore, hdirty⟩
    exact hreturns e he

theorem isolates_of_clean (hc : Readable c) (herror : ∀ k, (pages k).error = errorNoneUnspecified)
    (hclean : ∀ k, Reached c pages k → Clean c pages k)
    (halone : ∀ k m, Reached c pages k → (pages k).messages = [m] → c.decoded m = none →
      Exhausted c pages k) : Isolates c pages := by
  have hupTo : ∀ k, Reached c pages k → ∀ j ≤ k, Clean c pages j := fun k hreach j hj =>
    hclean j fun i hi => hreach i (by omega)
  refine ⟨?_, ?_, fun k before m after hk hm st₀ => ?_⟩
  · intro e he
    obtain ⟨k, hreach, _, hdirty⟩ := (over_error_iff hc herror).mp ⟨e, he⟩
    exact hdirty (hclean k hreach)
  · intro st hst
    obtain ⟨k, hreach, _, hpages, rfl⟩ := (over_ok_iff hc herror).mp hst
    rw [List.filterMap_flatMap, lastState_queries]
    simpa [queriesUpTo] using over_perm hpages
  · refine without_returns hc herror hupTo (fun hempty hreach => ?_) hk hm
    obtain ⟨rfl, rfl⟩ := List.append_eq_nil_iff.mp hempty
    exact halone k m hreach hk hm

/-- Without its one message a page ends the query, so with it nothing more may be returned. -/
theorem exhausted_of_isolates (hc : Readable c)
    (herror : ∀ k, (pages k).error = errorNoneUnspecified) (h : Isolates c pages)
    (hclean : ∀ k, Reached c pages k → Clean c pages k) {m : Proto.WakuMessage}
    (hreach : Reached c pages k) (hk : (pages k).messages = [m]) (hm : c.decoded m = none) :
    Exhausted c pages k := by
  have hk' : (pages k).messages = [] ++ m :: [] := hk
  have herror₀ : ∀ j, (withMessages pages k ([] ++ []) j).error = errorNoneUnspecified := by
    simpa using herror
  have hreach₀ : Reached c (withMessages pages k ([] ++ [])) k := fun j hj =>
    goesOn_with (fun heq => absurd heq (Nat.ne_of_lt hj)) (hreach j hj)
  have hstop₀ : ¬ GoesOn c (withMessages pages k ([] ++ [])) k := fun hgo =>
    hgo.messages withMessages_same
  have hclean₀ : ∀ j ≤ k, Clean c (withMessages pages k ([] ++ [])) j := fun j hj =>
    clean_without hk' (hclean j fun i hi => hreach i (by omega))
  have hperm₀ := over_perm hclean₀
  simp only [filterMap_without hk' hm] at hperm₀
  obtain ⟨st, hst, hperm⟩ := h.unaffected k [] m [] hk' hm _
    ((over_ok_iff hc herror₀).mpr ⟨k, hreach₀, hstop₀, hclean₀, rfl⟩)
  obtain ⟨n, hreach', hstop, hpages, rfl⟩ := (over_ok_iff hc herror).mp hst
  have hle : k ≤ n := by
    by_contra hlt
    exact hstop (hreach n (by omega))
  refine ⟨n, hle, hreach', hstop, (upTo_perm_iff hle).mp ?_⟩
  exact (over_perm hpages).symm.trans (hperm.trans hperm₀)

theorem isolates_iff (hc : Readable c) (herror : ∀ k, (pages k).error = errorNoneUnspecified) :
    Isolates c pages ↔ (∀ k, Reached c pages k → ∀ m ∈ (pages k).messages, ¬ Hostile c m) ∧
      ∀ k m, Reached c pages k → (pages k).messages = [m] → c.decoded m = none →
        Exhausted c pages k := by
  constructor
  · intro h
    have hclean : ∀ k, Reached c pages k → Clean c pages k := fun k =>
      clean_of_returns hc herror h.returns
    refine ⟨fun k hreach m hm hhostile => ?_, fun k m => exhausted_of_isolates hc herror h hclean⟩
    exact hclean k hreach m hm (rejects_iff_hostile.mpr hhostile)
  · rintro ⟨hnone, halone⟩
    refine isolates_of_clean hc herror (fun k hreach m hm hrejects => ?_) halone
    exact hnone k hreach m hm (rejects_iff_hostile.mp hrejects)

end

namespace Poisoned

/-- The tag of the empty text and its nonce: it decrypts, to nothing. -/
def poison : Proto.WakuMessage := ⟨some (gcmZeroTag ++ zeros 12), some "/hello", some 1, some 0⟩

def call : Call :=
  { Three.call with options := { QueryOptions.none with decryptionKeys := some [zeros 32] } }

/-- One page with a clear message and the hostile one. -/
def pages (_ : Nat) : HistoryResponse := ⟨[Three.message 1, poison], none, errorNoneUnspecified⟩

/-- One page with clear messages. -/
def cleanPages (_ : Nat) : HistoryResponse := ⟨Three.history, none, errorNoneUnspecified⟩

theorem readable : Readable call :=
  ⟨⟨_, rfl⟩, ⟨10, rfl⟩, by rintro _ ⟨⟩⟩

theorem clean_version : ∀ m ∈ Three.history, m.version ≠ some 1 := by decide

end Poisoned

theorem isolates_iff_three : Isolates Poisoned.call Poisoned.cleanPages := by
  refine (isolates_iff Poisoned.readable fun _ => rfl).mpr ⟨?_, ?_⟩
  · rintro k _ m hm ⟨payload, _, _, _, hversion, _⟩
    exact absurd hversion (Poisoned.clean_version m hm)
  · rintro _ m _ ⟨⟩ _

/-- The clear message decodes, and the whole query rejects with the `RangeError` of the other. -/
theorem poisoned_page_rejects :
    (Poisoned.call.decoded (Three.message 1)).isSome ∧
      Settles (Poisoned.call.over Poisoned.pages) (.error .rangeError) ∧
      ¬ Isolates Poisoned.call Poisoned.pages := by
  have h : Settles (Poisoned.call.over Poisoned.pages) (.error .rangeError) := ⟨1, rfl⟩
  exact ⟨rfl, h, fun hi => hi.returns _ h⟩

end Store
end JsWaku
