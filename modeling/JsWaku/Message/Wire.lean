import JsWaku.Js.Protobuf
import JsWaku.Message.Proto

/-!
# JsWaku.Message.Wire

`proto/waku/v2/message.ts`: `proto.WakuMessage` on the wire, and that decoding undoes encoding for
every message whose fields have lengths a `uint32` prefix can hold (`wireCodec_undoes`).

How a string field's bytes become a string is a parameter, since what becomes of bytes that are not
UTF-8 is up to the reader in use; it must read back what was written.
-/

namespace JsWaku
namespace Proto

open Js Js.Protobuf

def utf8 (s : String) : Bytes := s.toByteArray.data.toList

structure TextReader where
  read : Bytes → String
  read_utf8 : ∀ s, read (utf8 s) = s

/-- A reader that replaces text it cannot read as a whole. -/
def TextReader.strict : TextReader where
  read b := (String.fromUTF8? ⟨b.toArray⟩).getD "\uFFFD"
  read_utf8 s := by
    have hbytes : (⟨(utf8 s).toArray⟩ : ByteArray) = s.toByteArray := by simp [utf8]
    rw [hbytes, String.fromUTF8?, dif_pos s.isValidUTF8]
    rfl

def encodeMessage (m : WakuMessage) : Bytes :=
  (m.payload.elim [] fun b => varint 10 ++ lenPrefixed b) ++
  (m.contentTopic.elim [] fun s => varint 18 ++ lenPrefixed (utf8 s)) ++
  (m.version.elim [] fun v => varint 24 ++ varint v.toNat) ++
  (m.timestamp.elim [] fun t => varint 33 ++ leBytes 8 t.toNat)

/-- One turn of the `while` loop of `decode`: a tag and its field. -/
def decodeField (text : TextReader) (m : WakuMessage) (b : Bytes) :
    Except Thrown (WakuMessage × Bytes) := do
  let (tag, rest) ← uint32 b
  match tag / 8 with
  | 1 => do
    let (v, rest) ← bytes rest
    return ({ m with payload := some v }, rest)
  | 2 => do
    let (v, rest) ← bytes rest
    return ({ m with contentTopic := some (text.read v) }, rest)
  | 3 => do
    let (v, rest) ← uint32 rest
    return ({ m with version := some (UInt32.ofNat v) }, rest)
  | 4 => do
    let (v, rest) ← double rest
    return ({ m with timestamp := some v }, rest)
  | _ => do
    let rest ← skipType rest.length (tag % 8) rest
    return (m, rest)

theorem decodeField_lt {text : TextReader} {m m' : WakuMessage} {b rest : Bytes}
    (h : decodeField text m b = .ok (m', rest)) : rest.length < b.length := by
  obtain ⟨⟨tag, r⟩, htag, h⟩ := bind_eq_ok h
  have h0 := uint32_lt htag
  simp only at h
  split at h
  · obtain ⟨⟨v, r'⟩, hv, h⟩ := bind_eq_ok h
    cases h; have := bytes_lt hv; simp only; omega
  · obtain ⟨⟨v, r'⟩, hv, h⟩ := bind_eq_ok h
    cases h; have := bytes_lt hv; simp only; omega
  · obtain ⟨⟨v, r'⟩, hv, h⟩ := bind_eq_ok h
    cases h; have := uint32_lt hv; simp only; omega
  · obtain ⟨⟨v, r'⟩, hv, h⟩ := bind_eq_ok h
    cases h; have := double_le hv; simp only; omega
  · obtain ⟨r', hv, h⟩ := bind_eq_ok h
    cases h; have := skipType_le hv; omega

def decodeFields (text : TextReader) (m : WakuMessage) (b : Bytes) : Except Thrown WakuMessage :=
  if b = [] then .ok m
  else
    match _h : decodeField text m b with
    | .error e => .error e
    | .ok (m', rest) => decodeFields text m' rest
termination_by b.length
decreasing_by exact decodeField_lt _h

def wireCodec (text : TextReader) : Codec where
  encode := encodeMessage
  decode := decodeFields text ⟨none, none, none, none⟩

/-! ## Round trip -/

section

variable {text : TextReader} {m m' : WakuMessage} {b rest : Bytes}

theorem decodeFields_step (hne : b ≠ []) (h : decodeField text m b = .ok (m', rest)) :
    decodeFields text m b = decodeFields text m' rest := by
  rw [decodeFields, if_neg hne]
  split
  · rename_i e he; rw [h] at he; cases he
  · rename_i he; rw [h] at he; cases he; rfl

theorem varint_ne_nil (n : Nat) : varint n ≠ [] := by rw [varint]; split <;> simp

theorem decodeFields_payload {v : Bytes} (hv : v.length < 2 ^ 32) :
    decodeFields text m (varint 10 ++ lenPrefixed v ++ rest) =
      decodeFields text { m with payload := some v } rest := by
  refine decodeFields_step (by simp [varint_ne_nil]) ?_
  rw [decodeField, List.append_assoc, uint32_varint (by omega), ok_bind]
  simp only [bytes_lenPrefixed hv, Nat.reduceDiv, ok_bind]
  rfl

theorem decodeFields_contentTopic {s : String} (hs : (utf8 s).length < 2 ^ 32) :
    decodeFields text m (varint 18 ++ lenPrefixed (utf8 s) ++ rest) =
      decodeFields text { m with contentTopic := some s } rest := by
  refine decodeFields_step (by simp [varint_ne_nil]) ?_
  rw [decodeField, List.append_assoc, uint32_varint (by omega), ok_bind]
  simp only [bytes_lenPrefixed hs, Nat.reduceDiv, ok_bind, text.read_utf8]
  rfl

theorem decodeFields_version (v : UInt32) :
    decodeFields text m (varint 24 ++ varint v.toNat ++ rest) =
      decodeFields text { m with version := some v } rest := by
  refine decodeFields_step (by simp [varint_ne_nil]) ?_
  rw [decodeField, List.append_assoc, uint32_varint (by omega), ok_bind]
  simp only [uint32_varint v.toNat_lt, Nat.reduceDiv, ok_bind, UInt32.ofNat_toNat]
  rfl

theorem decodeFields_timestamp (t : Double) :
    decodeFields text m (varint 33 ++ leBytes 8 t.toNat ++ rest) =
      decodeFields text { m with timestamp := some t } rest := by
  refine decodeFields_step (by simp [varint_ne_nil]) ?_
  rw [decodeField, List.append_assoc, uint32_varint (by omega), ok_bind]
  simp only [double_leBytes, Nat.reduceDiv, ok_bind]
  rfl

theorem decodeFields_nil : decodeFields text m [] = .ok m := by
  rw [decodeFields, if_pos rfl]

end

/-- Field lengths that fit the `uint32` the writer puts before them. -/
structure WakuMessage.Sized (m : WakuMessage) : Prop where
  payload : ∀ b, m.payload = some b → b.length < 2 ^ 32
  contentTopic : ∀ s, m.contentTopic = some s → (utf8 s).length < 2 ^ 32

theorem wireCodec_undoes (text : TextReader) {m : WakuMessage} (h : m.Sized) :
    (wireCodec text).Undoes m := by
  obtain ⟨payload, contentTopic, version, timestamp⟩ := m
  simp only [Codec.Undoes, wireCodec, encodeMessage]
  -- Each field present is read into the message; each one absent leaves it as it was.
  have hp : ∀ m rest, decodeFields text m
      ((payload.elim [] fun b => varint 10 ++ lenPrefixed b) ++ rest) =
      decodeFields text { m with payload := payload.or m.payload } rest := by
    intro m rest
    cases payload with
    | none => rfl
    | some v => exact decodeFields_payload (h.payload v rfl)
  have hc : ∀ m rest, decodeFields text m
      ((contentTopic.elim [] fun s => varint 18 ++ lenPrefixed (utf8 s)) ++ rest) =
      decodeFields text { m with contentTopic := contentTopic.or m.contentTopic } rest := by
    intro m rest
    cases contentTopic with
    | none => rfl
    | some s => exact decodeFields_contentTopic (h.contentTopic s rfl)
  have hv : ∀ m rest, decodeFields text m
      ((version.elim [] fun v => varint 24 ++ varint v.toNat) ++ rest) =
      decodeFields text { m with version := version.or m.version } rest := by
    intro m rest
    cases version with
    | none => rfl
    | some v => exact decodeFields_version v
  have ht : ∀ m, decodeFields text m
      (timestamp.elim [] fun t => varint 33 ++ leBytes 8 t.toNat) =
      .ok { m with timestamp := timestamp.or m.timestamp } := by
    intro m
    cases timestamp with
    | none => exact decodeFields_nil
    | some t =>
      have := @decodeFields_timestamp text m [] t
      rw [List.append_nil, decodeFields_nil] at this
      exact this
  rw [List.append_assoc, List.append_assoc, hp, hc, hv, ht]
  simp

end Proto
end JsWaku
