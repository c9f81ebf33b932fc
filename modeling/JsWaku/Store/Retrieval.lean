import JsWaku.LightPush.Wire
import JsWaku.Message.Letter
import JsWaku.Store.Paging

/-!
# JsWaku.Store.Retrieval

From the authors of messages to a reader who asks a store for them.

* `Held` — a store node comes by a letter because it was pushed to it, or relayed.
* `queryHistory_letters` — he gets the letters that are for him, all of them and no others.
-/

namespace JsWaku
namespace Store

open Js Js.Protobuf LightPush SymmetricCrypto Version1

section

variable {libs : Libs}

/-- `h` is what a node read that a letter was pushed to, or that got it by relay. -/
inductive Held (strings : Proto.StringReader) (l : Letter libs) (h : Proto.WakuMessage) : Prop where
  | pushed {requestId pubSubTopic : String} {rpc : PushRPC} {request : PushRequest} :
      (createRequest requestId l.message pubSubTopic).encode.length < 2 ^ 32 →
      PushRPC.decode strings (createRequest requestId l.message pubSubTopic).encode = .ok rpc →
      rpc.request = some request → request.message = some h → Held strings l h
  | relayed {text : Proto.TextReader} : l.message.proto.Sized →
      (Proto.wireCodec text).decode (l.message.encode (Proto.wireCodec text)) = .ok h →
      Held strings l h

/-- Either way the node has the message itself. -/
theorem Held.eq {strings : Proto.StringReader} {l : Letter libs} {h : Proto.WakuMessage}
    (hheld : Held strings l h) : h = l.message.proto := by
  cases hheld with
  | pushed hlen hdecode hrequest hmessage =>
    rw [PushRPC.decode_encode strings hlen] at hdecode
    cases hdecode
    cases hrequest
    cases hmessage
    rfl
  | @relayed text hsized hdecode =>
    have hundoes : (Proto.wireCodec text).Undoes l.message.proto := Proto.wireCodec_undoes text hsized
    rw [WakuMessage.encode, hundoes] at hdecode
    exact (Except.ok.inj hdecode).symm

end

section

variable {c : Call} {connection : Connection} {peer : StorePeer} {n : Nat}

theorem settles_history
    (hconn : connectionFor c.chance c.store.libp2p c.options.peerId = .ok connection)
    (hs : peer.Answers connection n n) (hn : 1 ≤ n) (hsize : c.options.pageSize.assign 10 = some n)
    (hq : c.Quiet) (hclean : ∀ m ∈ peer.select c.criteria, ¬ c.Rejects m) :
    ∃ st, (∀ r, Settles c r ↔ r = .ok st) ∧
      st.messages.Perm ((peer.select c.criteria).filterMap c.decoded) := by
  have hall : ∀ j ≤ (peer.select c.criteria).length / n, Clean c (pagesOf c connection) j := by
    intro j hj m hm
    rw [pagesOf_messages hs hn hsize hj] at hm
    exact hclean m (List.mem_of_mem_drop (List.mem_of_mem_take hm))
  have hsettles := (settles_ok_iff hconn (replays_pagesOf hs hn hsize) hq).mpr
    ⟨_, (reached_after hs hn hsize (Nat.le_refl _)).1, last_page hs hn hsize, hall, rfl⟩
  refine ⟨_, fun r => ⟨fun h => settles_unique h hsettles, fun h => h ▸ hsettles⟩, ?_⟩
  have hperm := lastState_perm hall
  rwa [flatMap_pagesOf hs hn hsize] at hperm

theorem queryHistory_letters {strings : Proto.StringReader} {letters : List (Letter c.libs)}
    (hlibs : c.libs.Lawful)
    (hconn : connectionFor c.chance c.store.libp2p c.options.peerId = .ok connection)
    (hs : peer.Serves connection) (hn : 1 ≤ n) (hsize : c.options.pageSize.assign 10 = some n)
    (hq : c.Quiet) (hheld : List.Forall₂ (Held strings) letters (peer.select c.criteria))
    (hkeys : ∀ l ∈ letters,
      HoldsKey c.libs l.options l.cipher (c.options.decryptionKeys.getD []) ∨
        l.Closed (c.options.decryptionKeys.getD [])) :
    ∃ st got, (∀ r, Settles c r ↔ r = .ok st) ∧
      (∀ l ∈ letters, Outcome (c.options.decryptionKeys.getD []) l (got l)) ∧
      st.messages.Perm (letters.filterMap got) := by
  have hselect : peer.select c.criteria = letters.map fun l => l.message.proto := by
    have heq := hheld.imp fun _ _ h => h.eq.symm
    rw [← List.forall₂_map_left_iff (f := fun l : Letter c.libs => l.message.proto),
      List.forall₂_eq_eq_eq] at heq
    exact heq.symm
  have hdecode : ∀ l ∈ letters, ∃ o, Outcome (c.options.decryptionKeys.getD []) l o ∧
      decodeProto c.libs c.rt l.message.proto c.options.decryptionKeys = .ok o := by
    intro l hl
    rw [decodeProto_getD]
    exact l.outcome hlibs c.rt (hkeys l hl)
  have hclean : ∀ m ∈ peer.select c.criteria, ¬ c.Rejects m := by
    intro m hm
    rw [hselect] at hm
    obtain ⟨l, hl, rfl⟩ := List.mem_map.mp hm
    obtain ⟨o, _, ho⟩ := hdecode l hl
    rw [Call.Rejects, ho]
    exact not_throws_ok o
  obtain ⟨st, hst, hperm⟩ := settles_history hconn (hs.answersWith hn) hn hsize hq hclean
  refine ⟨st, fun l => c.decoded l.message.proto, hst, fun l hl => ?_, ?_⟩
  · obtain ⟨o, houtcome, ho⟩ := hdecode l hl
    have hgot : c.decoded l.message.proto = o := by rw [Call.decoded, ho]; rfl
    rwa [← hgot] at houtcome
  · rwa [hselect, List.filterMap_map] at hperm

end

namespace Letters

/-- In the clear, and pushed to the store. -/
def note : Letter Libs.transparent where
  rt := .browser
  draws := Hello.draws
  payload := Hello.payload
  contentTopic := "/hello"
  opts := none
  message := ⟨⟨some Hello.payload, some "/hello", some 0, some Hello.draws.now.toSeconds⟩, none, none⟩
  made := rfl
  short := Hello.payload_short
  portable := by
    rintro key ⟨⟩

/-- Sealed, and relayed. -/
def secret : Letter Libs.transparent := Hello.letter

def history : List Proto.WakuMessage := [note.message.proto, secret.message.proto]

def call : Call where
  libs := .transparent
  rt := .node
  store := .new ⟨[⟨"store", [storeCodec]⟩], fun _ => some (listConnection history)⟩ none
  contentTopics := ["/hello"]
  options := { QueryOptions.none with decryptionKeys := some [Hello.stranger] }
  chance := Three.chance

theorem request_length :
    (createRequest "request" note.message defaultPubSubTopic).encode.length < 2 ^ 32 := by
  have hid : (Proto.utf8 "request").length = 7 := by decide
  have htopic : (Proto.utf8 defaultPubSubTopic).length = 26 := by decide
  have hcontent : (Proto.utf8 "/hello").length = 6 := by decide
  simp [createRequest, note, Hello.payload, PushRPC.encode, PushRequest.encode, Proto.encodeMessage]
  split <;> simp [hid, htopic, hcontent, lenPrefixed, varint]

theorem secret_closed : secret.Closed [Hello.stranger] where
  encrypts := .inr rfl
  strangers := by
    rintro key hkey
    rw [List.mem_singleton.mp hkey]
    exact Hello.stranger_cipher

theorem note_outcome {o : Option WakuMessage} (h : Outcome [Hello.stranger] note o) :
    ∃ r, o = some r ∧ r.payload = some Hello.payload := by
  cases h with
  | opens _ hr => exact ⟨_, rfl, hr.payload⟩
  | closed hclosed => exact (hclosed.encrypts.elim Bool.false_ne_true Bool.false_ne_true).elim

theorem secret_outcome {o : Option WakuMessage} (h : Outcome [Hello.stranger] secret o) :
    o = none := by
  cases h with
  | closed _ => rfl
  | opens hkey _ =>
    cases hkey with
    | clear _ hsym => cases hsym
    | asymmetric hpk => cases hpk
    | symmetric _ hsym hmem =>
      cases hsym
      exact absurd hmem (by decide)

def letters : List (Letter call.libs) := [note, secret]

theorem held : List.Forall₂ (Held (.ofText .strict)) letters history :=
  .cons (.pushed request_length (PushRPC.decode_encode _ request_length) rfl rfl)
    (.cons (.relayed Hello.proto_sized Hello.codec_undoes) .nil)

theorem opens_or_closed : ∀ l ∈ letters, HoldsKey call.libs l.options l.cipher [Hello.stranger] ∨
    l.Closed [Hello.stranger] :=
  List.forall_mem_cons.mpr ⟨.inl (.clear rfl rfl), List.forall_mem_singleton.mpr (.inr secret_closed)⟩

end Letters

/-- The reader has some other key: he gets the note only. -/
theorem queryHistory_letters_note : ∃ st r, Settles Letters.call (.ok st) ∧ st.messages = [r] ∧
    r.payload = some [104, 105] := by
  obtain ⟨st, got, hst, houtcome, hperm⟩ := @queryHistory_letters Letters.call _
    (listPeer Letters.history) 10 (.ofText .strict) Letters.letters Libs.transparent_lawful
    (show connectionFor Letters.call.chance Letters.call.store.libp2p none = .ok _ from rfl)
    (listConnection_serves Letters.history) (by decide) rfl (by rintro _ ⟨⟩) Letters.held
    Letters.opens_or_closed
  obtain ⟨hnote, hrest⟩ := List.forall_mem_cons.mp houtcome
  obtain ⟨r, hnote, hpayload⟩ := Letters.note_outcome hnote
  have hsecret := Letters.secret_outcome (hrest Letters.secret List.mem_cons_self)
  refine ⟨st, r, (hst _).mpr rfl, List.perm_singleton.mp ?_, hpayload⟩
  have hgot : Letters.letters.filterMap got = [r] :=
    (List.filterMap_cons_some hnote).trans (congrArg _ (List.filterMap_cons_none hsecret))
  rwa [hgot] at hperm

end Store
end JsWaku
