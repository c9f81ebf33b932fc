import JsWaku.Message.Decoder
import JsWaku.Store.HistoryRpc

/-!
# JsWaku.Store.Wire

`proto/waku/v2/store.ts`: `encode` and `decode` of the messages of the store protocol.

* `settled` — what is left of a message after a trip over the wire: a time of negative zero in a
  cursor is not written, since `-0 !== 0` is false, and is read back as zero.
* `onto`    — what the bytes of one message do to a message read so far: its fields win, and its
  lists are added at the end. An embedded message is replaced as a whole.
* `HistoryRPC.decode_encode` — the round trip; `historyRPC_extended` is the one with a later version
  of the protocol.
* `historyRPC_frames` — several encodings in a row are read as the last of what they hold.
* `historyRPC_cut` — a reply cut short is not taken for one with a response.
-/

namespace JsWaku
namespace Store

open Js Js.Protobuf Proto

def maxSafeInteger : Nat := 2 ^ 53 - 1

/-- `longToNumber` -/
def longToNumber (n : Nat) : Except Thrown Nat :=
  if maxSafeInteger < n then .error (.error "Value is larger than Number.MAX_SAFE_INTEGER")
  else .ok n

/-- `x === 0`, of either sign. -/
def isZero (x : Double) : Bool := x = 0 ∨ x = 0x8000000000000000

namespace Index

def encode (i : Index) : Bytes :=
  (if i.digest.length ≠ 0 then varint 10 ++ lenPrefixed i.digest else []) ++
  (if ¬ isZero i.receivedTime then varint 17 ++ leBytes 8 i.receivedTime.toNat else []) ++
  (if ¬ isZero i.senderTime then varint 25 ++ leBytes 8 i.senderTime.toNat else [])

def field (tag : Nat) (i : Index) : Read Index :=
  match tag / 8 with
  | 1 => Read.bytes.map fun v => { i with digest := v }
  | 2 => Read.double.map fun v => { i with receivedTime := v }
  | 3 => Read.double.map fun v => { i with senderTime := v }
  | _ => (Read.skipType (tag % 8)).map fun _ => i

def decoder : Decoder Index where
  base := ⟨[], 0, 0⟩
  field := field
  forward tag i := by
    unfold field
    split
    · exact advances_bytes.map _
    · exact advances_double.map _
    · exact advances_double.map _
    · exact (advances_skipType _).map _

def settled (i : Index) : Index where
  digest := i.digest
  receivedTime := if isZero i.receivedTime then 0 else i.receivedTime
  senderTime := if isZero i.senderTime then 0 else i.senderTime

def onto (i j : Index) : Index where
  digest := if i.digest.length ≠ 0 then i.digest else j.digest
  receivedTime := if isZero i.receivedTime then j.receivedTime else i.receivedTime
  senderTime := if isZero i.senderTime then j.senderTime else i.senderTime

theorem onto_base (i : Index) : i.onto decoder.base = i.settled := by
  simp only [onto, settled, decoder]
  congr 1
  cases hd : i.digest <;> simp

theorem acts_encode {i : Index} (hlen : i.encode.length < 2 ^ 32) :
    decoder.Acts i.encode i.onto := by
  obtain ⟨digest, receivedTime, senderTime⟩ := i
  have hd : decoder.Acts (if digest.length ≠ 0 then varint 10 ++ lenPrefixed digest else [])
      fun j => { j with digest := if digest.length ≠ 0 then digest else j.digest } := by
    refine Decoder.acts_ite (fun hp => ?_) fun hp j => by rw [if_neg hp]
    have hfit : digest.length < 2 ^ 32 := by
      simp only [encode, if_pos hp, lenPrefixed, List.length_append] at hlen
      omega
    simp only [if_pos hp]
    exact Decoder.acts_read (fun (j : Index) v => { j with digest := v }) (by decide)
      (fun _ => rfl) (reads_bytes hfit)
  have hr : decoder.Acts
      (if ¬ isZero receivedTime then varint 17 ++ leBytes 8 receivedTime.toNat else [])
      fun j => { j with
        receivedTime := if isZero receivedTime then j.receivedTime else receivedTime } := by
    refine Decoder.acts_ite (fun hp => ?_) fun hp j => by rw [if_pos (not_not.mp hp)]
    simp only [if_neg hp]
    exact Decoder.acts_read (fun (j : Index) v => { j with receivedTime := v }) (by decide)
      (fun _ => rfl) (reads_double receivedTime)
  have hs : decoder.Acts
      (if ¬ isZero senderTime then varint 25 ++ leBytes 8 senderTime.toNat else [])
      fun j => { j with senderTime := if isZero senderTime then j.senderTime else senderTime } := by
    refine Decoder.acts_ite (fun hp => ?_) fun hp j => by rw [if_pos (not_not.mp hp)]
    simp only [if_neg hp]
    exact Decoder.acts_read (fun (j : Index) v => { j with senderTime := v }) (by decide)
      (fun _ => rfl) (reads_double senderTime)
  exact (hd.append hr).append hs

end Index

namespace PagingInfo

/-- A page size that is `undefined` is not `0` either, and `writer.uint64` throws on it. -/
def encode (p : PagingInfo) : Except Thrown Bytes :=
  match p.pageSize with
  | none => .error .typeError
  | some n => .ok (
    (if n ≠ 0 then varint 8 ++ uint64Bytes n else []) ++
    (p.cursor.elim [] fun c => varint 18 ++ lenPrefixed c.encode) ++
    (if p.direction ≠ 0 then varint 24 ++ int32Bytes p.direction else []))

def field (tag : Nat) (p : PagingInfo) : Read PagingInfo :=
  match tag / 8 with
  | 1 => (Read.uint64.check longToNumber).map fun v => { p with pageSize := some v }
  | 2 => Index.decoder.embedded.map fun v => { p with cursor := some v }
  | 3 => Read.int32.map fun v => { p with direction := v }
  | _ => (Read.skipType (tag % 8)).map fun _ => p

def decoder : Decoder PagingInfo where
  base := ⟨some 0, none, 0⟩
  field := field
  forward tag p := by
    unfold field
    split
    · exact (advances_uint64.check _).map _
    · exact Decoder.advances_embedded.map _
    · exact (advances_uint32.map _).map _
    · exact (advances_skipType _).map _

def settled (p : PagingInfo) : PagingInfo := { p with cursor := p.cursor.map Index.settled }

def onto (p q : PagingInfo) : PagingInfo where
  pageSize := if p.pageSize ≠ some 0 then p.pageSize else q.pageSize
  cursor := (p.cursor.map Index.settled).or q.cursor
  direction := if p.direction ≠ 0 then p.direction else q.direction

theorem onto_base (p : PagingInfo) : p.onto decoder.base = p.settled := by
  obtain ⟨pageSize, cursor, direction⟩ := p
  simp only [onto, settled, decoder, Option.or_none]
  congr 1
  · split <;> simp_all
  · split <;> simp_all

/-- Numbers that the receiver takes for what they are. -/
structure Fits (p : PagingInfo) : Prop where
  pageSize : ∀ n, p.pageSize = some n → n ≤ maxSafeInteger
  direction : -2 ^ 31 ≤ p.direction ∧ p.direction < 2 ^ 31

theorem acts_encode {p : PagingInfo} {b : Bytes} (hp' : p.Fits) (h : p.encode = .ok b)
    (hlen : b.length < 2 ^ 32) : decoder.Acts b p.onto := by
  obtain ⟨pageSize, cursor, direction⟩ := p
  cases pageSize with
  | none => cases h
  | some n =>
    simp only [encode, Except.ok.injEq] at h
    subst h
    have hn : decoder.Acts (if n ≠ 0 then varint 8 ++ uint64Bytes n else [])
        fun q => { q with pageSize := if some n ≠ some 0 then some n else q.pageSize } := by
      refine Decoder.acts_ite (fun hp => ?_) fun hp q => by rw [if_neg (by simpa using hp)]
      have hsafe : n ≤ maxSafeInteger := hp'.pageSize n rfl
      have hread := (reads_uint64 (n := n) (by simp only [maxSafeInteger] at hsafe; omega)).check
        (f := longToNumber) (if_neg (by omega))
      have hne : some n ≠ some 0 := by simpa using hp
      simp only [if_pos hne]
      exact Decoder.acts_read (fun (q : PagingInfo) v => { q with pageSize := some v }) (by decide)
        (fun _ => rfl) hread
    have hc : decoder.Acts (cursor.elim [] fun c => varint 18 ++ lenPrefixed c.encode)
        fun q => { q with cursor := (cursor.map Index.settled).or q.cursor } := by
      refine Decoder.acts_option ?_ (by rintro rfl q; rfl)
      rintro c rfl
      have hfit : c.encode.length < 2 ^ 32 := by
        simp only [Option.elim, lenPrefixed, List.length_append] at hlen
        omega
      have hread := Decoder.reads_embedded (Index.acts_encode hfit) hfit
      rw [Index.onto_base] at hread
      exact Decoder.acts_read (fun (q : PagingInfo) v => { q with cursor := some v }) (by decide)
        (fun _ => rfl) hread
    have hd : decoder.Acts (if direction ≠ 0 then varint 24 ++ int32Bytes direction else [])
        fun q => { q with direction := if direction ≠ 0 then direction else q.direction } := by
      refine Decoder.acts_ite (fun hp => ?_) fun hp q => by rw [if_neg hp]
      simp only [if_pos hp]
      exact Decoder.acts_read (fun (q : PagingInfo) v => { q with direction := v }) (by decide)
        (fun _ => rfl) (reads_int32 hp'.direction.1 hp'.direction.2)
    exact (hn.append hc).append hd

end PagingInfo

section

variable (strings : StringReader)

namespace ContentFilter

def encode (f : ContentFilter) : Bytes :=
  if f.contentTopic ≠ "" then varint 10 ++ lenPrefixed (utf8 f.contentTopic) else []

def field (tag : Nat) (f : ContentFilter) : Read ContentFilter :=
  match tag / 8 with
  | 1 => strings.read.map fun v => { f with contentTopic := v }
  | _ => (Read.skipType (tag % 8)).map fun _ => f

def decoder : Decoder ContentFilter where
  base := ⟨""⟩
  field := field strings
  forward tag f := by
    unfold field
    split
    · exact strings.forward.map _
    · exact (advances_skipType _).map _

def onto (f g : ContentFilter) : ContentFilter := if f.contentTopic ≠ "" then f else g

theorem onto_base (f : ContentFilter) : f.onto (decoder strings).base = f := by
  obtain ⟨contentTopic⟩ := f
  simp only [onto, decoder]
  split <;> simp_all

theorem acts_encode {f : ContentFilter} (hlen : f.encode.length < 2 ^ 32) :
    (decoder strings).Acts f.encode f.onto := by
  obtain ⟨contentTopic⟩ := f
  exact strings.acts (fun (_ : ContentFilter) v => ⟨v⟩) (by decide) (fun _ => rfl) hlen
    fun _ => rfl

end ContentFilter

namespace HistoryQuery

def encode (q : HistoryQuery) : Except Thrown Bytes := do
  let pagingInfo ← forkOption 34 PagingInfo.encode q.pagingInfo
  return (q.pubSubTopic.elim [] fun s => varint 18 ++ lenPrefixed (utf8 s)) ++
    (q.contentFilters.flatMap fun v => varint 26 ++ lenPrefixed v.encode) ++
    pagingInfo ++
    (q.startTime.elim [] fun t => varint 41 ++ leBytes 8 t.toNat) ++
    (q.endTime.elim [] fun t => varint 49 ++ leBytes 8 t.toNat)

def field (tag : Nat) (q : HistoryQuery) : Read HistoryQuery :=
  match tag / 8 with
  | 2 => strings.read.map fun v => { q with pubSubTopic := some v }
  | 3 => (ContentFilter.decoder strings).embedded.map fun v =>
      { q with contentFilters := q.contentFilters ++ [v] }
  | 4 => PagingInfo.decoder.embedded.map fun v => { q with pagingInfo := some v }
  | 5 => Read.double.map fun v => { q with startTime := some v }
  | 6 => Read.double.map fun v => { q with endTime := some v }
  | _ => (Read.skipType (tag % 8)).map fun _ => q

def decoder : Decoder HistoryQuery where
  base := ⟨none, [], none, none, none⟩
  field := field strings
  forward tag q := by
    unfold field
    split
    · exact strings.forward.map _
    · exact Decoder.advances_embedded.map _
    · exact Decoder.advances_embedded.map _
    · exact advances_double.map _
    · exact advances_double.map _
    · exact (advances_skipType _).map _

def settled (q : HistoryQuery) : HistoryQuery :=
  { q with pagingInfo := q.pagingInfo.map PagingInfo.settled }

def onto (q r : HistoryQuery) : HistoryQuery where
  pubSubTopic := q.pubSubTopic.or r.pubSubTopic
  contentFilters := r.contentFilters ++ q.contentFilters
  pagingInfo := (q.pagingInfo.map PagingInfo.settled).or r.pagingInfo
  startTime := q.startTime.or r.startTime
  endTime := q.endTime.or r.endTime

theorem onto_base (q : HistoryQuery) : q.onto (decoder strings).base = q.settled := by
  simp [onto, settled, decoder]

def Fits (q : HistoryQuery) : Prop := ∀ p, q.pagingInfo = some p → p.Fits

theorem acts_encode {q : HistoryQuery} {b : Bytes} (hq : q.Fits) (h : q.encode = .ok b)
    (hlen : b.length < 2 ^ 32) : (decoder strings).Acts b q.onto := by
  obtain ⟨pubSubTopic, contentFilters, pagingInfo, startTime, endTime⟩ := q
  obtain ⟨paging, hpaging, h⟩ := bind_eq_ok h
  cases h
  simp only [List.length_append] at hlen
  have ht : (decoder strings).Acts (pubSubTopic.elim [] fun s => varint 18 ++ lenPrefixed (utf8 s))
      fun r => { r with pubSubTopic := pubSubTopic.or r.pubSubTopic } := by
    refine Decoder.acts_option ?_ (by rintro rfl r; rfl)
    rintro s rfl
    have hfit : (utf8 s).length < 2 ^ 32 := by
      simp only [Option.elim, lenPrefixed, List.length_append] at hlen
      omega
    exact Decoder.acts_read (fun (r : HistoryQuery) v => { r with pubSubTopic := some v })
      (by decide) (fun _ => rfl) (strings.reads s hfit)
  have hf : (decoder strings).Acts
      (contentFilters.flatMap fun v => varint 26 ++ lenPrefixed v.encode)
      fun r => { r with contentFilters := r.contentFilters ++ contentFilters } := by
    refine Decoder.acts_repeated (e := ContentFilter.decoder strings)
      (fun (r : HistoryQuery) vs => { r with contentFilters := r.contentFilters ++ vs })
      (by simp) (by simp) (by decide) (fun _ => rfl) (by omega) fun f _ hfit => ?_
    exact ⟨_, ContentFilter.acts_encode strings hfit, ContentFilter.onto_base strings f⟩
  have hp : (decoder strings).Acts paging
      fun r => { r with pagingInfo := (pagingInfo.map PagingInfo.settled).or r.pagingInfo } := by
    have hacts := Decoder.acts_forkOption (d := decoder strings) (e := PagingInfo.decoder)
      (fun (r : HistoryQuery) v => { r with pagingInfo := some v }) PagingInfo.settled
      (by decide) (fun _ => rfl) hpaging (by omega) fun p b hsome hb hfit =>
        ⟨_, PagingInfo.acts_encode (hq p hsome) hb hfit, PagingInfo.onto_base p⟩
    cases pagingInfo <;> exact hacts
  have hs : (decoder strings).Acts (startTime.elim [] fun t => varint 41 ++ leBytes 8 t.toNat)
      fun r => { r with startTime := startTime.or r.startTime } := by
    refine Decoder.acts_option ?_ (by rintro rfl r; rfl)
    rintro t rfl
    exact Decoder.acts_read (fun (r : HistoryQuery) v => { r with startTime := some v })
      (by decide) (fun _ => rfl) (reads_double t)
  have he : (decoder strings).Acts (endTime.elim [] fun t => varint 49 ++ leBytes 8 t.toNat)
      fun r => { r with endTime := endTime.or r.endTime } := by
    refine Decoder.acts_option ?_ (by rintro rfl r; rfl)
    rintro t rfl
    exact Decoder.acts_read (fun (r : HistoryQuery) v => { r with endTime := some v })
      (by decide) (fun _ => rfl) (reads_double t)
  exact (((ht.append hf).append hp).append hs).append he

end HistoryQuery

namespace HistoryResponse

def encode (r : HistoryResponse) : Except Thrown Bytes := do
  let pagingInfo ← forkOption 26 PagingInfo.encode r.pagingInfo
  return (r.messages.flatMap fun v => varint 18 ++ lenPrefixed (encodeMessage v)) ++
    pagingInfo ++
    (if r.error ≠ 0 then varint 32 ++ int32Bytes r.error else [])

def field (tag : Nat) (r : HistoryResponse) : Read HistoryResponse :=
  match tag / 8 with
  | 2 => (wakuMessage strings).embedded.map fun v => { r with messages := r.messages ++ [v] }
  | 3 => PagingInfo.decoder.embedded.map fun v => { r with pagingInfo := some v }
  | 4 => Read.int32.map fun v => { r with error := v }
  | _ => (Read.skipType (tag % 8)).map fun _ => r

def decoder : Decoder HistoryResponse where
  base := ⟨[], none, 0⟩
  field := field strings
  forward tag r := by
    unfold field
    split
    · exact Decoder.advances_embedded.map _
    · exact Decoder.advances_embedded.map _
    · exact (advances_uint32.map _).map _
    · exact (advances_skipType _).map _

def settled (r : HistoryResponse) : HistoryResponse :=
  { r with pagingInfo := r.pagingInfo.map PagingInfo.settled }

def onto (r s : HistoryResponse) : HistoryResponse where
  messages := s.messages ++ r.messages
  pagingInfo := (r.pagingInfo.map PagingInfo.settled).or s.pagingInfo
  error := if r.error ≠ 0 then r.error else s.error

theorem onto_base (r : HistoryResponse) : r.onto (decoder strings).base = r.settled := by
  simp only [onto, settled, decoder, List.nil_append, Option.or_none]
  congr 1
  split <;> simp_all

structure Fits (r : HistoryResponse) : Prop where
  pagingInfo : ∀ p, r.pagingInfo = some p → p.Fits
  error : -2 ^ 31 ≤ r.error ∧ r.error < 2 ^ 31

theorem acts_encode {r : HistoryResponse} {b : Bytes} (hr : r.Fits) (h : r.encode = .ok b)
    (hlen : b.length < 2 ^ 32) : (decoder strings).Acts b r.onto := by
  obtain ⟨messages, pagingInfo, error⟩ := r
  obtain ⟨paging, hpaging, h⟩ := bind_eq_ok h
  cases h
  simp only [List.length_append] at hlen
  have hm : (decoder strings).Acts
      (messages.flatMap fun v => varint 18 ++ lenPrefixed (encodeMessage v))
      fun s => { s with messages := s.messages ++ messages } := by
    refine Decoder.acts_repeated (e := wakuMessage strings)
      (fun (s : HistoryResponse) vs => { s with messages := s.messages ++ vs })
      (by simp) (by simp) (by decide) (fun _ => rfl) (by omega) fun m _ hfit => ?_
    exact ⟨_, acts_encodeMessage strings (sized_of_length hfit), m.onto_none⟩
  have hp : (decoder strings).Acts paging
      fun s => { s with pagingInfo := (pagingInfo.map PagingInfo.settled).or s.pagingInfo } := by
    have hacts := Decoder.acts_forkOption (d := decoder strings) (e := PagingInfo.decoder)
      (fun (s : HistoryResponse) v => { s with pagingInfo := some v }) PagingInfo.settled
      (by decide) (fun _ => rfl) hpaging (by omega) fun p b hsome hb hfit =>
        ⟨_, PagingInfo.acts_encode (hr.pagingInfo p hsome) hb hfit, PagingInfo.onto_base p⟩
    cases pagingInfo <;> exact hacts
  have he : (decoder strings).Acts (if error ≠ 0 then varint 32 ++ int32Bytes error else [])
      fun s => { s with error := if error ≠ 0 then error else s.error } := by
    refine Decoder.acts_ite (fun hne => ?_) fun hne s => by rw [if_neg hne]
    simp only [if_pos hne]
    exact Decoder.acts_read (fun (s : HistoryResponse) v => { s with error := v }) (by decide)
      (fun _ => rfl) (reads_int32 hr.error.1 hr.error.2)
  exact (hm.append hp).append he

end HistoryResponse

/-! ## `HistoryRPC` -/

namespace HistoryRPC

def encode (rpc : HistoryRPC) : Except Thrown Bytes := do
  let query ← forkOption 18 HistoryQuery.encode rpc.query
  let response ← forkOption 26 HistoryResponse.encode rpc.response
  return (if rpc.requestId ≠ "" then varint 10 ++ lenPrefixed (utf8 rpc.requestId) else []) ++
    query ++ response

def field (tag : Nat) (rpc : HistoryRPC) : Read HistoryRPC :=
  match tag / 8 with
  | 1 => strings.read.map fun v => { rpc with requestId := v }
  | 2 => (HistoryQuery.decoder strings).embedded.map fun v => { rpc with query := some v }
  | 3 => (HistoryResponse.decoder strings).embedded.map fun v => { rpc with response := some v }
  | _ => (Read.skipType (tag % 8)).map fun _ => rpc

def decoder : Decoder HistoryRPC where
  base := ⟨"", none, none⟩
  field := field strings
  forward tag rpc := by
    unfold field
    split
    · exact strings.forward.map _
    · exact Decoder.advances_embedded.map _
    · exact Decoder.advances_embedded.map _
    · exact (advances_skipType _).map _

/-- `HistoryRPC.decode(bytes)` -/
def decode (bytes : Bytes) : Except Thrown HistoryRPC := (decoder strings).decode bytes

def settled (rpc : HistoryRPC) : HistoryRPC :=
  { rpc with query := rpc.query.map HistoryQuery.settled,
             response := rpc.response.map HistoryResponse.settled }

def onto (rpc rpc' : HistoryRPC) : HistoryRPC where
  requestId := if rpc.requestId ≠ "" then rpc.requestId else rpc'.requestId
  query := (rpc.query.map HistoryQuery.settled).or rpc'.query
  response := (rpc.response.map HistoryResponse.settled).or rpc'.response

theorem onto_base (rpc : HistoryRPC) : rpc.onto (decoder strings).base = rpc.settled := by
  simp only [onto, settled, decoder, Option.or_none]
  congr 1
  split <;> simp_all

structure Fits (rpc : HistoryRPC) : Prop where
  query : ∀ q, rpc.query = some q → q.Fits
  response : ∀ r, rpc.response = some r → r.Fits

/-- `b` is what `encode` writes for a message that fits. -/
structure Written (rpc : HistoryRPC) (b : Bytes) : Prop where
  fits : rpc.Fits
  encode : rpc.encode = .ok b
  length : b.length < 2 ^ 32

section

variable {rpc : HistoryRPC} {c : Bytes}

theorem acts_requestId {requestId : String}
    (hlen : (if requestId ≠ "" then varint 10 ++ lenPrefixed (utf8 requestId) else []).length <
      2 ^ 32) :
    (decoder strings).Acts
      (if requestId ≠ "" then varint 10 ++ lenPrefixed (utf8 requestId) else [])
      fun r => { r with requestId := if requestId ≠ "" then requestId else r.requestId } :=
  strings.acts (fun (r : HistoryRPC) v => { r with requestId := v }) (by decide) (fun _ => rfl) hlen
    fun r => by split <;> rfl

theorem acts_query {query : Option HistoryQuery} (hfits : ∀ q, query = some q → q.Fits)
    (h : forkOption 18 HistoryQuery.encode query = .ok c) (hlen : c.length < 2 ^ 32) :
    (decoder strings).Acts c
      fun r => { r with query := (query.map HistoryQuery.settled).or r.query } := by
  have hacts := Decoder.acts_forkOption (d := decoder strings) (e := HistoryQuery.decoder strings)
    (fun (r : HistoryRPC) v => { r with query := some v }) HistoryQuery.settled
    (by decide) (fun _ => rfl) h hlen fun q b hsome hb hfit =>
      ⟨_, HistoryQuery.acts_encode strings (hfits q hsome) hb hfit,
        HistoryQuery.onto_base strings q⟩
  cases query <;> exact hacts

theorem acts_response {response : Option HistoryResponse} (hfits : ∀ r, response = some r → r.Fits)
    (h : forkOption 26 HistoryResponse.encode response = .ok c) (hlen : c.length < 2 ^ 32) :
    (decoder strings).Acts c
      fun r => { r with response := (response.map HistoryResponse.settled).or r.response } := by
  have hacts := Decoder.acts_forkOption (d := decoder strings)
    (e := HistoryResponse.decoder strings)
    (fun (r : HistoryRPC) v => { r with response := some v }) HistoryResponse.settled
    (by decide) (fun _ => rfl) h hlen fun q b hsome hb hfit =>
      ⟨_, HistoryResponse.acts_encode strings (hfits q hsome) hb hfit,
        HistoryResponse.onto_base strings q⟩
  cases response <;> exact hacts

theorem acts_encode {b : Bytes} (hw : rpc.Written b) : (decoder strings).Acts b rpc.onto := by
  obtain ⟨hrpc, h, hlen⟩ := hw
  obtain ⟨queryBytes, hquery, h⟩ := bind_eq_ok h
  obtain ⟨responseBytes, hresponse, h⟩ := bind_eq_ok h
  cases h
  simp only [List.length_append] at hlen
  exact ((acts_requestId strings (by omega)).append
    (acts_query strings hrpc.query hquery (by omega))).append
    (acts_response strings hrpc.response hresponse (by omega))

end

/-- Over the wire and back. -/
theorem decode_encode {rpc : HistoryRPC} {b : Bytes} (hw : rpc.Written b) :
    decode strings b = .ok rpc.settled := by
  have hacts := Decoder.decode_of_acts (acts_encode strings hw)
  rwa [onto_base] at hacts

/-- Writing a query throws where `encodes` says so. -/
theorem encode_query {rpc : HistoryRPC} (h : rpc.response = none) :
    (do let _ ← rpc.encode; return ()) = rpc.encodes := by
  obtain ⟨requestId, query, response⟩ := rpc
  obtain rfl : response = none := h
  rcases query with _ | ⟨pubSubTopic, contentFilters, _ | ⟨_ | pageSize, cursor, direction⟩,
    startTime, endTime⟩ <;> rfl

end HistoryRPC

/-- A message written by a side that knows more fields, put in anywhere and at any level. -/
theorem historyRPC_extended {rpc : HistoryRPC} {b b' : Bytes} (hw : rpc.Written b)
    (h : (HistoryRPC.decoder strings).Extends b b') :
    HistoryRPC.decode strings b' = .ok rpc.settled := by
  rw [HistoryRPC.decode, Decoder.extends_decode h]
  exact HistoryRPC.decode_encode strings hw

theorem acts_flatten {rpcs : List HistoryRPC} {bs : List Bytes}
    (h : List.Forall₂ HistoryRPC.Written rpcs bs) :
    (HistoryRPC.decoder strings).Acts bs.flatten fun m => rpcs.foldl (fun m rpc => rpc.onto m) m := by
  induction h with
  | nil => exact Decoder.acts_nil
  | cons hw _ ih => exact (HistoryRPC.acts_encode strings hw).append ih

section

variable {α : Type} (f : HistoryRPC → Option α) (settled : α → α)

theorem foldl_last
    (hf : ∀ rpc rpc' : HistoryRPC, f (rpc.onto rpc') = ((f rpc).map settled).or (f rpc'))
    (rpcs : List HistoryRPC) (m : HistoryRPC) : f (rpcs.foldl (fun m rpc => rpc.onto m) m) =
      (((rpcs.filterMap f).getLast?).map settled).or (f m) := by
  induction rpcs using List.reverseRecOn with
  | nil => rfl
  | append_singleton rpcs rpc ih =>
    rw [List.foldl_append, List.foldl_cons, List.foldl_nil, hf, ih, List.filterMap_append,
      List.getLast?_append]
    cases h : f rpc <;> simp [h]

end

/-- The bytes that come back on a stream are put together before they are read. -/
theorem historyRPC_frames {rpcs : List HistoryRPC} {bs : List Bytes}
    (h : List.Forall₂ HistoryRPC.Written rpcs bs) :
    ∃ got, HistoryRPC.decode strings bs.flatten = .ok got ∧
      got.query = ((rpcs.filterMap HistoryRPC.query).getLast?).map HistoryQuery.settled ∧
      got.response = ((rpcs.filterMap HistoryRPC.response).getLast?).map HistoryResponse.settled := by
  refine ⟨_, Decoder.decode_of_acts (acts_flatten strings h), ?_, ?_⟩
  · rw [foldl_last HistoryRPC.query HistoryQuery.settled fun _ _ => rfl]
    exact Option.or_none
  · rw [foldl_last HistoryRPC.response HistoryResponse.settled fun _ _ => rfl]
    exact Option.or_none

/-! ## Replies cut short -/

theorem Index.within : Index.decoder.Within 0 := by
  intro tag i
  show Inside 0 (Index.field tag i)
  unfold Index.field
  split
  · exact Inside.map inside_reading _
  · exact Inside.map inside_reading _
  · exact Inside.map inside_reading _
  · exact Inside.map inside_reading _

/-- A page size may be read past the end. -/
theorem PagingInfo.within : PagingInfo.decoder.Within 1 := by
  intro tag p
  show Inside 1 (PagingInfo.field tag p)
  unfold PagingInfo.field
  split
  · exact (inside_uint64.check _).map _
  · exact ((Decoder.inside_embedded Index.within).mono (Nat.zero_le 1)).map _
  · exact (Inside.map inside_reading _).map _
  · exact Inside.map inside_reading _

theorem ContentFilter.within : (ContentFilter.decoder strings).Within 0 := by
  intro tag f
  show Inside 0 (ContentFilter.field strings tag f)
  unfold ContentFilter.field
  split
  · exact strings.inside.map _
  · exact Inside.map inside_reading _

theorem HistoryQuery.within : (HistoryQuery.decoder strings).Within 1 := by
  intro tag q
  show Inside 1 (HistoryQuery.field strings tag q)
  unfold HistoryQuery.field
  split
  · exact (strings.inside.mono (Nat.zero_le 1)).map _
  · exact ((Decoder.inside_embedded (ContentFilter.within strings)).mono (Nat.zero_le 1)).map _
  · exact (Decoder.inside_embedded PagingInfo.within).map _
  · exact Inside.map inside_reading _
  · exact Inside.map inside_reading _
  · exact Inside.map inside_reading _

theorem HistoryResponse.within : (HistoryResponse.decoder strings).Within 1 := by
  intro tag r
  show Inside 1 (HistoryResponse.field strings tag r)
  unfold HistoryResponse.field
  split
  · exact ((Decoder.inside_embedded (within_wakuMessage strings)).mono (Nat.zero_le 1)).map _
  · exact (Decoder.inside_embedded PagingInfo.within).map _
  · exact (Inside.map inside_reading _).map _
  · exact Inside.map inside_reading _

/-- A reply that stops two bytes or more short of its end is not taken for one with a response. -/
theorem historyRPC_cut {rpc : HistoryRPC} {b cut : Bytes} (hw : rpc.Written b) (hcut : cut <+: b)
    (hshort : cut.length + 2 ≤ b.length) {reply : HistoryRPC}
    (h : HistoryRPC.decode strings cut = .ok reply) : reply.response = none := by
  refine Decoder.decode_cut (P := fun r => r.response = none) ?_ rfl hcut hshort h
  obtain ⟨hrpc, henc, hlen⟩ := hw
  obtain ⟨queryBytes, hquery, henc⟩ := bind_eq_ok henc
  obtain ⟨responseBytes, hresponse, henc⟩ := bind_eq_ok henc
  cases henc
  simp only [List.length_append] at hlen
  have hi : (HistoryRPC.decoder strings).CutKeeps (fun r => r.response = none) 1
      (if rpc.requestId ≠ "" then varint 10 ++ lenPrefixed (utf8 rpc.requestId) else []) :=
    strings.cutKeeps (fun (r : HistoryRPC) v => { r with requestId := v }) (by decide)
      (fun _ => rfl) (by omega) fun _ _ h => h
  have hq : (HistoryRPC.decoder strings).CutKeeps (fun r => r.response = none) 1 queryBytes :=
    Decoder.cutKeeps_forkOption (fun r v => { r with query := some v }) (by decide)
      (fun _ => rfl) hquery (HistoryQuery.within strings) (by omega) (by decide)
      (.inr fun _ _ h => h)
  have hr : (HistoryRPC.decoder strings).CutKeeps (fun r => r.response = none) 2 responseBytes :=
    Decoder.cutKeeps_forkOption (fun r v => { r with response := some v }) (by decide)
      (fun _ => rfl) hresponse (HistoryResponse.within strings) (by omega) (by decide)
      (.inl (by decide))
  have hacts := @HistoryRPC.acts_requestId strings rpc.requestId (by omega)
  have hiq := hi.append hacts (fun _ h => h) hq
  exact hiq.append (hacts.append (HistoryRPC.acts_query strings hrpc.query hquery (by omega)))
    (fun _ h => h) hr

end

namespace Refusal

def rpc : HistoryRPC := ⟨"a", none, some ⟨[], none, errorInvalidCursor⟩⟩

def error : Bytes := varint 32 ++ int32Bytes errorInvalidCursor

def bytes : Bytes := varint 10 ++ lenPrefixed (utf8 "a") ++ (varint 26 ++ lenPrefixed error)

theorem error_eq : error = [32, 1] := by
  simp [error, int32Bytes, varint, errorInvalidCursor]

theorem bytes_eq : bytes = [10, 1, 97, 26, 2, 32, 1] := by
  have ha : utf8 "a" = [97] := by decide
  simp [bytes, error_eq, ha, lenPrefixed, varint]

theorem written : rpc.Written bytes where
  fits := ⟨by rintro q ⟨⟩, by rintro r ⟨⟩; exact ⟨by rintro p ⟨⟩, by decide⟩⟩
  encode := by
    simp [rpc, bytes, error, HistoryRPC.encode, forkOption, HistoryResponse.encode,
      errorInvalidCursor, pure, Except.pure]
  length := by rw [bytes_eq]; decide

/-- The error behind a field of number 15. -/
theorem error_extends (strings : StringReader) :
    (HistoryResponse.decoder strings).Extends error (varint 120 ++ varint 7 ++ error) := by
  have hread := fun r : HistoryResponse =>
    (reads_int32 (v := errorInvalidCursor) (by decide) (by decide)).map fun v => { r with error := v }
  have herror : (HistoryResponse.decoder strings).Acts error fun r =>
    { r with error := errorInvalidCursor } := Decoder.acts_field (by decide) hread
  exact .unknown (by decide) (fun _ => rfl) (.varint 7) herror.extends

theorem bytes_extends (strings : StringReader) :
    (HistoryRPC.decoder strings).Extends bytes (varint 10 ++ lenPrefixed (utf8 "a") ++
      (varint 26 ++ lenPrefixed (varint 120 ++ varint 7 ++ error))) := by
  have hread : ∀ r : HistoryRPC, Reads ((HistoryRPC.decoder strings).field 10 r)
      (lenPrefixed (utf8 "a")) { r with requestId := "a" } := fun r =>
    (strings.reads "a" (by decide)).map fun v => ({ r with requestId := v } : HistoryRPC)
  have hresponse := Decoder.Extends.embedded (d := HistoryRPC.decoder strings)
    (fun (r : HistoryRPC) v => { r with response := some v }) (show 26 < 2 ^ 32 by decide)
    (fun _ => rfl) (error_extends strings) (by rw [error_eq]; decide)
    (by simp [error_eq, varint]) .nil
  rw [List.append_nil, List.append_nil] at hresponse
  exact .field (by decide) hread hresponse

end Refusal

/-- The error is found behind a field of a later version. -/
theorem historyRPC_extended_refusal :
    HistoryRPC.decode (.ofText .strict) (varint 10 ++ lenPrefixed (utf8 "a") ++
      (varint 26 ++ lenPrefixed (varint 120 ++ varint 7 ++ Refusal.error))) = .ok Refusal.rpc :=
  historyRPC_extended _ Refusal.written (Refusal.bytes_extends _)

theorem historyRPC_frames_refusal :
    ∃ got, HistoryRPC.decode (.ofText .strict) [Refusal.bytes, Refusal.bytes].flatten = .ok got ∧
      got.query = none ∧ got.response = some ⟨[], none, errorInvalidCursor⟩ :=
  historyRPC_frames _ (.cons Refusal.written (.cons Refusal.written .nil))

end Store
end JsWaku
