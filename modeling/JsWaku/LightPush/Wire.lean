import JsWaku.LightPush.Push
import JsWaku.Message.Decoder

/-!
# JsWaku.LightPush.Wire

`proto/waku/v2/light_push.ts`: `encode` and `decode` of the messages of the light push protocol.

* `onto` — what the bytes of one message do to a message read so far.
* `PushRPC.decode_encode` — the round trip loses nothing; `pushRPC_extended` is the one with a later
  version of the protocol.
* `pushRPC_cut` — a reply cut short is not taken for one with a response.
-/

namespace JsWaku
namespace LightPush

open Js Js.Protobuf Proto

variable (strings : StringReader)

namespace PushRequest

def encode (r : PushRequest) : Bytes :=
  (if r.pubSubTopic ≠ "" then varint 10 ++ lenPrefixed (utf8 r.pubSubTopic) else []) ++
  (r.message.elim [] fun m => varint 18 ++ lenPrefixed (encodeMessage m))

def field (tag : Nat) (r : PushRequest) : Read PushRequest :=
  match tag / 8 with
  | 1 => strings.read.map fun v => { r with pubSubTopic := v }
  | 2 => (wakuMessage strings).embedded.map fun v => { r with message := some v }
  | _ => (Read.skipType (tag % 8)).map fun _ => r

def decoder : Decoder PushRequest where
  base := ⟨"", none⟩
  field := field strings
  forward tag r := by
    unfold field
    split
    · exact strings.forward.map _
    · exact Decoder.advances_embedded.map _
    · exact (advances_skipType _).map _

def onto (r s : PushRequest) : PushRequest where
  pubSubTopic := if r.pubSubTopic ≠ "" then r.pubSubTopic else s.pubSubTopic
  message := r.message.or s.message

theorem onto_base (r : PushRequest) : r.onto (decoder strings).base = r := by
  obtain ⟨pubSubTopic, message⟩ := r
  simp only [onto, decoder, Option.or_none]
  congr 1
  split <;> simp_all

theorem acts_encode {r : PushRequest} (hlen : r.encode.length < 2 ^ 32) :
    (decoder strings).Acts r.encode r.onto := by
  obtain ⟨pubSubTopic, message⟩ := r
  simp only [encode, List.length_append] at hlen
  have ht : (decoder strings).Acts
      (if pubSubTopic ≠ "" then varint 10 ++ lenPrefixed (utf8 pubSubTopic) else [])
      fun s => { s with pubSubTopic := if pubSubTopic ≠ "" then pubSubTopic else s.pubSubTopic } :=
    strings.acts (fun (s : PushRequest) v => { s with pubSubTopic := v }) (by decide)
      (fun _ => rfl) (by omega) fun s => by split <;> rfl
  have hm : (decoder strings).Acts
      (message.elim [] fun m => varint 18 ++ lenPrefixed (encodeMessage m))
      fun s => { s with message := message.or s.message } := by
    refine Decoder.acts_option ?_ (by rintro rfl s; rfl)
    rintro m rfl
    have hfit : (encodeMessage m).length < 2 ^ 32 := by
      simp only [Option.elim, lenPrefixed, List.length_append] at hlen
      omega
    have hread := Decoder.reads_embedded
      (acts_encodeMessage strings (sized_of_length hfit)) hfit
    have hbase : m.onto (wakuMessage strings).base = m := m.onto_none
    rw [hbase] at hread
    exact Decoder.acts_read (fun (s : PushRequest) v => { s with message := some v }) (by decide)
      (fun _ => rfl) hread
  exact ht.append hm

end PushRequest

namespace PushResponse

def encode (r : PushResponse) : Bytes :=
  (if r.isSuccess = true then varint 8 ++ boolBytes r.isSuccess else []) ++
  (if r.info ≠ "" then varint 18 ++ lenPrefixed (utf8 r.info) else [])

def field (tag : Nat) (r : PushResponse) : Read PushResponse :=
  match tag / 8 with
  | 1 => Read.bool.map fun v => { r with isSuccess := v }
  | 2 => strings.read.map fun v => { r with info := v }
  | _ => (Read.skipType (tag % 8)).map fun _ => r

def decoder : Decoder PushResponse where
  base := ⟨false, ""⟩
  field := field strings
  forward tag r := by
    unfold field
    split
    · exact (advances_uint32.map _).map _
    · exact strings.forward.map _
    · exact (advances_skipType _).map _

def onto (r s : PushResponse) : PushResponse where
  isSuccess := if r.isSuccess = true then r.isSuccess else s.isSuccess
  info := if r.info ≠ "" then r.info else s.info

theorem onto_base (r : PushResponse) : r.onto (decoder strings).base = r := by
  obtain ⟨isSuccess, info⟩ := r
  simp only [onto, decoder]
  congr 1
  · cases isSuccess <;> rfl
  · split <;> simp_all

theorem acts_encode {r : PushResponse} (hlen : r.encode.length < 2 ^ 32) :
    (decoder strings).Acts r.encode r.onto := by
  obtain ⟨isSuccess, info⟩ := r
  simp only [encode, List.length_append] at hlen
  have hs : (decoder strings).Acts
      (if isSuccess = true then varint 8 ++ boolBytes isSuccess else [])
      fun s => { s with isSuccess := if isSuccess = true then isSuccess else s.isSuccess } := by
    refine Decoder.acts_ite (fun hp => ?_) fun hp s => by rw [if_neg hp]
    simp only [if_pos hp]
    exact Decoder.acts_read (fun (s : PushResponse) v => { s with isSuccess := v }) (by decide)
      (fun _ => rfl) (reads_bool isSuccess)
  have hi : (decoder strings).Acts (if info ≠ "" then varint 18 ++ lenPrefixed (utf8 info) else [])
      fun s => { s with info := if info ≠ "" then info else s.info } :=
    strings.acts (fun (s : PushResponse) v => { s with info := v }) (by decide) (fun _ => rfl)
      (by omega) fun s => by split <;> rfl
  exact hs.append hi

end PushResponse

/-! ## `PushRPC` -/

namespace PushRPC

def encode (rpc : PushRPC) : Bytes :=
  (if rpc.requestId ≠ "" then varint 10 ++ lenPrefixed (utf8 rpc.requestId) else []) ++
  (rpc.request.elim [] fun r => varint 18 ++ lenPrefixed r.encode) ++
  (rpc.response.elim [] fun r => varint 26 ++ lenPrefixed r.encode)

def field (tag : Nat) (rpc : PushRPC) : Read PushRPC :=
  match tag / 8 with
  | 1 => strings.read.map fun v => { rpc with requestId := v }
  | 2 => (PushRequest.decoder strings).embedded.map fun v => { rpc with request := some v }
  | 3 => (PushResponse.decoder strings).embedded.map fun v => { rpc with response := some v }
  | _ => (Read.skipType (tag % 8)).map fun _ => rpc

def decoder : Decoder PushRPC where
  base := ⟨"", none, none⟩
  field := field strings
  forward tag rpc := by
    unfold field
    split
    · exact strings.forward.map _
    · exact Decoder.advances_embedded.map _
    · exact Decoder.advances_embedded.map _
    · exact (advances_skipType _).map _

/-- `PushRPC.decode(bytes)` -/
def decode (bytes : Bytes) : Except Thrown PushRPC := (decoder strings).decode bytes

def onto (rpc rpc' : PushRPC) : PushRPC where
  requestId := if rpc.requestId ≠ "" then rpc.requestId else rpc'.requestId
  request := rpc.request.or rpc'.request
  response := rpc.response.or rpc'.response

theorem onto_base (rpc : PushRPC) : rpc.onto (decoder strings).base = rpc := by
  obtain ⟨requestId, request, response⟩ := rpc
  simp only [onto, decoder, Option.or_none]
  congr 1
  split <;> simp_all

def requestIdBytes (requestId : String) : Bytes :=
  if requestId ≠ "" then varint 10 ++ lenPrefixed (utf8 requestId) else []

def requestBytes (request : Option PushRequest) : Bytes :=
  request.elim [] fun r => varint 18 ++ lenPrefixed r.encode

def responseBytes (response : Option PushResponse) : Bytes :=
  response.elim [] fun r => varint 26 ++ lenPrefixed r.encode

theorem encode_eq (rpc : PushRPC) : rpc.encode =
    requestIdBytes rpc.requestId ++ requestBytes rpc.request ++ responseBytes rpc.response := rfl

theorem acts_requestId {requestId : String} (hlen : (requestIdBytes requestId).length < 2 ^ 32) :
    (decoder strings).Acts (requestIdBytes requestId)
      fun r => { r with requestId := if requestId ≠ "" then requestId else r.requestId } :=
  strings.acts (fun (r : PushRPC) v => { r with requestId := v }) (by decide) (fun _ => rfl) hlen
    fun r => by split <;> rfl

theorem acts_request {request : Option PushRequest}
    (hlen : (requestBytes request).length < 2 ^ 32) :
    (decoder strings).Acts (requestBytes request)
      fun r => { r with request := request.or r.request } := by
  refine Decoder.acts_option ?_ (by rintro rfl r; rfl)
  rintro q rfl
  have hfit : q.encode.length < 2 ^ 32 := by
    simp only [requestBytes, Option.elim, lenPrefixed, List.length_append] at hlen
    omega
  have hread := Decoder.reads_embedded (PushRequest.acts_encode strings hfit) hfit
  rw [PushRequest.onto_base] at hread
  exact Decoder.acts_read (fun (r : PushRPC) v => { r with request := some v }) (by decide)
    (fun _ => rfl) hread

theorem acts_response {response : Option PushResponse}
    (hlen : (responseBytes response).length < 2 ^ 32) :
    (decoder strings).Acts (responseBytes response)
      fun r => { r with response := response.or r.response } := by
  refine Decoder.acts_option ?_ (by rintro rfl r; rfl)
  rintro q rfl
  have hfit : q.encode.length < 2 ^ 32 := by
    simp only [responseBytes, Option.elim, lenPrefixed, List.length_append] at hlen
    omega
  have hread := Decoder.reads_embedded (PushResponse.acts_encode strings hfit) hfit
  rw [PushResponse.onto_base] at hread
  exact Decoder.acts_read (fun (r : PushRPC) v => { r with response := some v }) (by decide)
    (fun _ => rfl) hread

theorem acts_encode {rpc : PushRPC} (hlen : rpc.encode.length < 2 ^ 32) :
    (decoder strings).Acts rpc.encode rpc.onto := by
  simp only [encode_eq, List.length_append] at hlen
  exact ((acts_requestId strings (by omega)).append (acts_request strings (by omega))).append
    (acts_response strings (by omega))

theorem decode_encode {rpc : PushRPC} (hlen : rpc.encode.length < 2 ^ 32) :
    decode strings rpc.encode = .ok rpc := by
  have hacts := Decoder.decode_of_acts (acts_encode strings hlen)
  rwa [onto_base] at hacts

end PushRPC

/-- A message written by a side that knows more fields, put in anywhere and at any level. -/
theorem pushRPC_extended {rpc : PushRPC} {b : Bytes} (hlen : rpc.encode.length < 2 ^ 32)
    (h : (PushRPC.decoder strings).Extends rpc.encode b) : PushRPC.decode strings b = .ok rpc := by
  rw [PushRPC.decode, Decoder.extends_decode h]
  exact PushRPC.decode_encode strings hlen

/-- A positive answer behind a field of a later version. -/
theorem pushRPC_extended_success : PushRPC.decode (.ofText .strict)
    (varint 120 ++ varint 7 ++ PushRPC.encode ⟨"", none, some ⟨true, ""⟩⟩) =
      .ok ⟨"", none, some ⟨true, ""⟩⟩ := by
  have hlen : (PushRPC.encode ⟨"", none, some ⟨true, ""⟩⟩).length < 2 ^ 32 := by
    simp only [PushRPC.encode, PushResponse.encode, Option.elim, boolBytes]
    simp [lenPrefixed, varint]
  exact pushRPC_extended _ hlen
    (.unknown (by decide) (fun _ => rfl) (.varint 7) (PushRPC.acts_encode _ hlen).extends)

theorem PushResponse.within : (PushResponse.decoder strings).Within 0 := by
  intro tag r
  show Inside 0 (PushResponse.field strings tag r)
  unfold PushResponse.field
  split
  · exact (Inside.map inside_reading _).map _
  · exact strings.inside.map _
  · exact Inside.map inside_reading _

theorem PushRequest.within : (PushRequest.decoder strings).Within 0 := by
  intro tag r
  show Inside 0 (PushRequest.field strings tag r)
  unfold PushRequest.field
  split
  · exact strings.inside.map _
  · exact (Decoder.inside_embedded (within_wakuMessage strings)).map _
  · exact Inside.map inside_reading _

/-- A reply that stops short of its end is not taken for one with a response. -/
theorem pushRPC_cut {rpc : PushRPC} {cut : Bytes} (hlen : rpc.encode.length < 2 ^ 32)
    (hcut : cut <+: rpc.encode) (hne : cut ≠ rpc.encode) {reply : PushRPC}
    (h : PushRPC.decode strings cut = .ok reply) : reply.response = none := by
  have hshort : cut.length < rpc.encode.length :=
    Nat.lt_of_le_of_ne hcut.length_le fun heq => hne (hcut.eq_of_length heq)
  suffices hkeeps : (PushRPC.decoder strings).CutKeeps (fun r => r.response = none) 1 rpc.encode from
    Decoder.decode_cut hkeeps rfl hcut hshort h
  simp only [PushRPC.encode_eq, List.length_append] at hlen
  have hi : (PushRPC.decoder strings).CutKeeps (fun r => r.response = none) 1
      (PushRPC.requestIdBytes rpc.requestId) :=
    strings.cutKeeps (fun (r : PushRPC) v => { r with requestId := v }) (by decide)
      (fun _ => rfl) (by show (PushRPC.requestIdBytes rpc.requestId).length < 2 ^ 32; omega)
      fun _ _ h => h
  have hq : (PushRPC.decoder strings).CutKeeps (fun r => r.response = none) 1
      (PushRPC.requestBytes rpc.request) := by
    refine Decoder.cutKeeps_option (by decide) fun q hq => ?_
    simp only [hq, PushRPC.requestBytes, Option.elim, lenPrefixed, List.length_append] at hlen
    exact Decoder.cutKeeps_embedded (fun (r : PushRPC) v => { r with request := some v })
      (by decide) (fun _ => rfl) (PushRequest.within strings) (by omega) (by decide)
      (.inr fun _ _ h => h)
  have hr : (PushRPC.decoder strings).CutKeeps (fun r => r.response = none) 1
      (PushRPC.responseBytes rpc.response) := by
    refine Decoder.cutKeeps_option (by decide) fun q hq => ?_
    simp only [hq, PushRPC.responseBytes, Option.elim, lenPrefixed, List.length_append] at hlen
    exact Decoder.cutKeeps_embedded (fun (r : PushRPC) v => { r with response := some v })
      (by decide) (fun _ => rfl) (PushResponse.within strings) (by omega) (by decide)
      (.inl (by decide))
  have hiq := hi.append (PushRPC.acts_requestId strings (by omega)) (fun _ h => h) hq
  exact hiq.append ((PushRPC.acts_requestId strings (by omega)).append
    (PushRPC.acts_request strings (by omega))) (fun _ h => h) hr

end LightPush
end JsWaku
