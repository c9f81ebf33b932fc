import JsWaku.Lib.Arrival
import JsWaku.Message.RoundTrip
import JsWaku.Store.Isolation
import JsWaku.Store.Rounds

/-!
# JsWaku.Store.Order

The order of what a query returns. The decodes of a page run side by side, and each message is
pushed when its own decode is done.

* `KeepsOrder` — the returned list, and each batch handed to the callback, has the messages that
  decode in the order of the pages.
* `FinishesInOrder` — the decodes of a page that give a message finish in the order of the page.
* `keepsOrder_iff`  — the order is kept exactly when every page delivered finishes in order.
* `finishesInOrder_every_iff` — no page with two different messages is safe from every order.
-/

namespace JsWaku
namespace Store

open Js WhileLoop Arrival

/-- The message at place `i`, if it decodes. -/
def Call.decodedAt (c : Call) (messages : List Proto.WakuMessage) (i : Nat) : Option WakuMessage :=
  messages[i]?.bind c.decoded

/-- Places that hold the same message may be swapped. -/
def FinishesInOrder (c : Call) (k : Nat) (messages : List Proto.WakuMessage) : Prop :=
  AsListed (c.decodedAt messages) (c.chance.finish k messages.length) (List.range messages.length)

/-- Round `k` gets as far as the callback, with `batch`. -/
def Hands (c : Call) (connection : Connection) (k : Nat) (batch : List WakuMessage) : Prop :=
  c.options.callback.isSome ∧ ∃ st response, Turns (queryTurn c connection) k .init st ∧
    readPage c connection st = .ok response ∧ response.messages ≠ [] ∧
      settle c k response.messages = .ok batch

structure KeepsOrder (c : Call) (connection : Connection) : Prop where
  returned : ∀ st, Settles c (.ok st) → st.messages =
    ((List.range st.queries.length).flatMap fun k => (pagesOf c connection k).messages).filterMap
      c.decoded
  handed : ∀ k batch, Hands c connection k batch →
    batch = (pagesOf c connection k).messages.filterMap c.decoded

/-- Page `k` is handed to the callback, or is among those of a call that returns. -/
def Delivered (c : Call) (connection : Connection) (k : Nat) : Prop :=
  (∃ batch, Hands c connection k batch) ∨ ∃ st, Settles c (.ok st) ∧ k < st.queries.length

section

variable {c : Call} {connection : Connection} {k : Nat} {messages : List Proto.WakuMessage}
  {batch : List WakuMessage}

theorem filterMap_decodedAt :
    (List.range messages.length).filterMap (c.decodedAt messages) = messages.filterMap c.decoded := by
  have h := congrArg (List.filterMap c.decoded) (filterMap_range_getElem? messages)
  rw [List.filterMap_filterMap] at h
  exact h

theorem settle_eq (h : settle c k messages = .ok batch) :
    batch = (c.chance.finish k messages.length).filterMap (c.decodedAt messages) := by
  obtain ⟨results, hall, h⟩ := bind_eq_ok h
  cases h
  have hfm := congrArg (List.filterMap fun r : Except Thrown (Option WakuMessage) =>
    r.toOption.join) (promiseAll_eq_ok.mp hall)
  rw [inOrder, List.filterMap_filterMap, List.filterMap_map, List.length_map] at hfm
  refine Eq.trans hfm.symm (List.filterMap_congr fun i _ => ?_)
  rw [List.getElem?_map, Call.decodedAt]
  cases messages[i]? <;> rfl

theorem settle_order_iff (h : settle c k messages = .ok batch) :
    batch = messages.filterMap c.decoded ↔ FinishesInOrder c k messages := by
  rw [settle_eq h, ← filterMap_decodedAt]
  exact filterMap_eq_iff

theorem finishesInOrder_every_iff :
    (∀ chance, FinishesInOrder { c with chance := chance } k messages) ↔
      ∀ x ∈ messages.filterMap c.decoded, ∀ y ∈ messages.filterMap c.decoded, x = y := by
  rw [← filterMap_decodedAt, ← every_order_iff]
  constructor
  · intro h order hperm
    have hchance := h { c.chance with
      finish := fun _ n => if n = messages.length then order else List.range n
      finish_perm := fun _ n => by
        split
        · rename_i hn
          rw [hn]
          exact hperm
        · exact .refl _ }
    simp only [FinishesInOrder, ite_true] at hchance
    exact hchance
  · intro h chance
    exact h _ (chance.finish_perm k messages.length)

/-! ## The pages of a call -/

theorem hands_inv (h : Hands c connection k batch) :
    settle c k (pagesOf c connection k).messages = .ok batch := by
  obtain ⟨_, st, response, hturns, hread, _, hsettle⟩ := h
  obtain ⟨rfl, _⟩ := turns_pagesOf hturns
  rwa [readPage_pagesOf hread] at hsettle

/-- A returned list is in order exactly when each of its pages is. -/
theorem lastState_order_iff {pages : Nat → HistoryResponse} (hclean : ∀ j ≤ k, Clean c pages j) :
    (lastState c pages k).messages =
        ((List.range (lastState c pages k).queries.length).flatMap fun j =>
          (pages j).messages).filterMap c.decoded ↔
      ∀ j < (lastState c pages k).queries.length, FinishesInOrder c j (pages j).messages := by
  have hlength : (lastState c pages k).queries.length = k + 1 := by
    rw [lastState_queries]
    simp [queriesUpTo]
  have hpage : ∀ j < k + 1, (pageMessages c pages j = (pages j).messages.filterMap c.decoded ↔
      FinishesInOrder c j (pages j).messages) := fun j hj =>
    settle_order_iff (settle_clean (hclean j (Nat.le_of_lt_succ hj)))
  rw [hlength, lastState_messages, List.filterMap_flatMap]
  constructor
  · intro h j hj
    refine (hpage j hj).mp (flatMap_range_inj (fun i hi => ?_) h j hj)
    exact (pageMessages_perm (hclean i (Nat.le_of_lt_succ hi))).length_eq
  · intro h
    refine List.flatMap_congr fun j hj => ?_
    have hj := List.mem_range.mp hj
    exact (hpage j hj).mpr (h j hj)

theorem keepsOrder_iff
    (hconn : connectionFor c.chance c.store.libp2p c.options.peerId = .ok connection) :
    KeepsOrder c connection ↔
      ∀ k, Delivered c connection k → FinishesInOrder c k (pagesOf c connection k).messages := by
  constructor
  · rintro h k (⟨batch, hhands⟩ | ⟨st, hst, hk⟩)
    · exact (settle_order_iff (hands_inv hhands)).mp (h.handed k batch hhands)
    · have horder := h.returned st hst
      obtain ⟨n, rfl, _, _, hpasses⟩ := returned_inv hconn hst
      exact (lastState_order_iff fun j hj => (hpasses j hj).clean).mp horder k hk
  · intro h
    refine ⟨?_, ?_⟩
    · intro st hst
      obtain ⟨n, rfl, _, _, hpasses⟩ := returned_inv hconn hst
      exact (lastState_order_iff fun j hj => (hpasses j hj).clean).mpr fun j hj => h j (.inr ⟨_, hst, hj⟩)
    · intro k batch hhands
      exact (settle_order_iff (hands_inv hhands)).mpr (h k (.inl ⟨batch, hhands⟩))

end

namespace Mixed

def pages (_ : Nat) : HistoryResponse := ⟨[Hello.proto, Hello.clear], none, errorNoneUnspecified⟩

def options : QueryOptions :=
  { QueryOptions.none with
    direction := .value .forward
    decryptionKeys := some [Hello.stranger, Hello.key] }

def base (chance : Chance) : Call :=
  ⟨.transparent, .node, .new Three.libp2p none, ["/hello"], options, chance⟩

def call (chance : Chance) : Call := (base chance).over pages

def sent : List WakuMessage := [⟨Hello.opened, none, none⟩, ⟨Hello.clear, none, none⟩]

theorem decodeProto_clear : decodeProto Libs.transparent .node Hello.clear
    (some [Hello.stranger, Hello.key]) = .ok (some ⟨Hello.clear, none, none⟩) :=
  JsWaku.decodeProto_clear rfl (by decide) _

theorem decoded (chance : Chance) :
    [Hello.proto, Hello.clear].filterMap (call chance).decoded = sent := by
  have hproto : (call chance).decoded Hello.proto = some ⟨Hello.opened, none, none⟩ := by
    rw [Call.decoded, show decodeProto (call chance).libs (call chance).rt Hello.proto
      (call chance).options.decryptionKeys = _ from Hello.decodeProto_proto]
    rfl
  have hclear : (call chance).decoded Hello.clear = some ⟨Hello.clear, none, none⟩ := by
    rw [Call.decoded, show decodeProto (call chance).libs (call chance).rt Hello.clear
      (call chance).options.decryptionKeys = _ from decodeProto_clear]
    rfl
  simp [hproto, hclear, sent]

theorem settles : ∃ st, Settles (call Three.chance) (.ok st) ∧ st.queries.length = 1 ∧
    st.messages = sent.reverse := by
  have hreadable : Readable (base Three.chance) := ⟨⟨_, rfl⟩, ⟨10, rfl⟩, by rintro _ ⟨⟩⟩
  have hsettle : settle (call Three.chance) 0 (pages 0).messages = .ok sent.reverse := by
    have hdecodes : (pages 0).messages.map (decodeProto (call Three.chance).libs
        (call Three.chance).rt · (call Three.chance).options.decryptionKeys) =
          [.ok (some ⟨Hello.opened, none, none⟩), .ok (some ⟨Hello.clear, none, none⟩)] := by
      simp only [pages, List.map_cons, List.map_nil]
      exact congrArg₂ (fun r r' => [r, r']) Hello.decodeProto_proto decodeProto_clear
    rw [settle, hdecodes]
    rfl
  refine ⟨_, (over_ok_iff hreadable fun _ => rfl).mpr ⟨0, ?_, ?_, ?_, rfl⟩, rfl, ?_⟩
  · intro j hj
    exact absurd hj (Nat.not_lt_zero j)
  · intro h
    exact absurd h.cursor (by decide)
  · intro j hj
    rw [Nat.le_zero.mp hj]
    exact clean_of_settle hsettle
  · rw [lastState_messages, List.range_one, List.flatMap_singleton]
    exact congrArg (fun r => r.toOption.getD []) hsettle

end Mixed

theorem keepsOrder_inTurn :
    KeepsOrder (Mixed.call .inTurn) (pageConnection Mixed.pages) :=
  (keepsOrder_iff rfl).mpr fun _ _ => asListed_refl

/-- The clear message is decoded first and comes first, although it was sent last. -/
theorem clear_overtakes_encrypted :
    (∃ st, Settles (Mixed.call Three.chance) (.ok st) ∧ st.messages = Mixed.sent.reverse) ∧
      (Mixed.pages 0).messages.filterMap (Mixed.call Three.chance).decoded = Mixed.sent ∧
      ¬ KeepsOrder (Mixed.call Three.chance) (pageConnection Mixed.pages) := by
  obtain ⟨st, hst, hlength, hmessages⟩ := Mixed.settles
  refine ⟨⟨st, hst, hmessages⟩, Mixed.decoded _, fun h => ?_⟩
  have horder := h.returned st hst
  rw [hlength, hmessages, List.range_one, List.flatMap_singleton] at horder
  have hsent := horder.trans (Mixed.decoded Three.chance)
  exact absurd hsent (by decide)

end Store
end JsWaku
