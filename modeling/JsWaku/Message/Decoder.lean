import JsWaku.Js.Fields
import JsWaku.Message.Wire

/-!
# JsWaku.Message.Decoder

`proto.WakuMessage.decode(reader, length)` of `proto/waku/v2/message.ts`: a message read where it
stands in a longer buffer, which is how the store and light push protocols carry messages.

* `StringReader` — `reader.string()`, which the two readers of `protobufjs` do differently when the
  string does not fit: the one for byte arrays throws, the one for a `Buffer` takes what there is.
* `wakuMessage` — the message type; `acts_encodeMessage` says what the bytes of a message do.
* `wakuMessage_decode` — over a buffer of its own it is the decoder of `JsWaku.Message.Wire`.
-/

namespace JsWaku
namespace Proto

open Js Js.Protobuf

structure StringReader where
  read : Read String
  reads : ∀ s, (utf8 s).length < 2 ^ 32 → Reads read (lenPrefixed (utf8 s)) s
  forward : Advances read
  inside : Inside 0 read
  /-- Of a string cut short it reads what there is, or nothing. -/
  cuts : ∀ {s before cut v pos'}, (utf8 s).length < 2 ^ 32 → cut <+: lenPrefixed (utf8 s) →
    cut.length < (lenPrefixed (utf8 s)).length →
    read (before ++ cut) before.length = .ok (v, pos') → (before ++ cut).length ≤ pos'

/-- Over a byte array. -/
def StringReader.ofText (text : TextReader) : StringReader where
  read := Read.bytes.map text.read
  reads s hs := by
    have h := (reads_bytes hs).map text.read
    rwa [text.read_utf8] at h
  forward := advances_bytes.map text.read
  inside := Inside.map inside_reading text.read
  cuts := by
    intro s before cut v pos' hs hcut hshort h
    have hthrows : bytes cut = .error .rangeError := by
      rcases cut_append hcut with ⟨hlencut, hneq⟩ | ⟨cut', rfl, hcut'⟩
      · rw [bytes, uint32, uint32Loop_cut (by simpa using hs) hlencut hneq, error_bind]
      · simp only [lenPrefixed, List.length_append, Nat.add_lt_add_iff_left] at hshort
        rw [bytes, uint32_varint hs, ok_bind]
        exact if_pos hshort
    rw [Read.map, Read.bytes, reading, List.drop_left, hthrows] at h
    cases h

/-- `reader.string()` of the reader for a `Buffer`. -/
def clipped (text : TextReader) : Read String := fun buf pos => do
  let (len, pos) ← Read.uint32 buf pos
  return (text.read ((buf.drop pos).take len), min (pos + len) buf.length)

section

variable {text : TextReader}

theorem reads_clipped {s : String} (hs : (utf8 s).length < 2 ^ 32) :
    Reads (clipped text) (lenPrefixed (utf8 s)) s := by
  intro before after
  have hlen := reads_uint32 hs before (utf8 s ++ after)
  have hleft := @List.drop_left _ (before ++ varint (utf8 s).length) (utf8 s ++ after)
  unfold clipped
  simp only [lenPrefixed, List.append_assoc, List.length_append] at hlen hleft ⊢
  rw [hlen, ok_bind]
  simp only [hleft, List.take_left, text.read_utf8, pure, Except.pure]
  congr 2
  omega

theorem advances_clipped : Advances (clipped text) := by
  intro buf pos v pos' h
  obtain ⟨⟨len, p⟩, hlen, h⟩ := bind_eq_ok h
  cases h
  have hfwd := advances_uint32 hlen
  have hin : p ≤ buf.length + 0 := inside_reading hlen
  omega

theorem inside_clipped : Inside 0 (clipped text) := by
  intro buf pos v pos' h
  obtain ⟨⟨len, p⟩, hlen, h⟩ := bind_eq_ok h
  cases h
  omega

theorem clipped_cut {s v : String} {before cut : Bytes} {pos' : Nat} (hs : (utf8 s).length < 2 ^ 32)
    (hcut : cut <+: lenPrefixed (utf8 s))
    (h : clipped text (before ++ cut) before.length = .ok (v, pos')) :
    (before ++ cut).length ≤ pos' := by
  obtain ⟨⟨len, p⟩, hlen, h⟩ := bind_eq_ok h
  cases h
  rcases cut_append hcut with ⟨hlencut, hneq⟩ | ⟨cut', rfl, hcut'⟩
  · obtain ⟨e, he⟩ := uint32_cut hs hlencut hneq before
    rw [he] at hlen
    cases hlen
  · have hread := reads_uint32 hs before cut'
    rw [List.append_assoc, hlen] at hread
    cases hread
    have hle := hcut'.length_le
    simp only [List.length_append]
    omega

end

/-- Over a `Buffer`. -/
def StringReader.ofBuffer (text : TextReader) : StringReader where
  read := clipped text
  reads _ hs := reads_clipped hs
  forward := advances_clipped
  inside := inside_clipped
  cuts hs hcut _ h := clipped_cut hs hcut h

/-- A field for a string, written when it is not empty. -/
theorem StringReader.acts {α : Type} {d : Decoder α} {g : α → α} (strings : StringReader)
    (f : α → String → α) {tag : Nat} {s : String} (htag : tag < 2 ^ 32)
    (hfield : ∀ m, d.field tag m = strings.read.map (f m))
    (hlen : (if s ≠ "" then varint tag ++ lenPrefixed (utf8 s) else []).length < 2 ^ 32)
    (hg : ∀ m, g m = if s ≠ "" then f m s else m) :
    d.Acts (if s ≠ "" then varint tag ++ lenPrefixed (utf8 s) else []) g := by
  refine Decoder.acts_ite (fun hne => ?_) fun hne m => by rw [hg, if_neg hne]
  have hs : (utf8 s).length < 2 ^ 32 := by
    simp only [if_pos hne, lenPrefixed, List.length_append] at hlen
    omega
  have hf : g = fun m => f m s := funext fun m => by rw [hg, if_pos hne]
  rw [hf]
  exact Decoder.acts_read f htag hfield (strings.reads s hs)

/-- A field for a string, of which `P` says nothing. -/
theorem StringReader.cutKeeps {α : Type} {d : Decoder α} {P : α → Prop} (strings : StringReader)
    (f : α → String → α) {tag : Nat} {s : String} (htag : tag < 2 ^ 32)
    (hfield : ∀ m, d.field tag m = strings.read.map (f m))
    (hlen : (if s ≠ "" then varint tag ++ lenPrefixed (utf8 s) else []).length < 2 ^ 32)
    (hP : ∀ m v, P m → P (f m v)) :
    d.CutKeeps P 1 (if s ≠ "" then varint tag ++ lenPrefixed (utf8 s) else []) := by
  refine Decoder.cutKeeps_ite (by decide) fun hne => ?_
  have hs : (utf8 s).length < 2 ^ 32 := by
    simp only [if_pos hne, lenPrefixed, List.length_append] at hlen
    omega
  refine Decoder.cutKeeps_field htag fun before cut m m' pos' hcut hshort hm h => ?_
  rw [hfield] at h
  obtain ⟨⟨v, p⟩, hv, h⟩ := bind_eq_ok h
  cases h
  exact ⟨hP m v hm, strings.cuts hs hcut (by omega) hv⟩

/-! ## The message type -/

section

variable (strings : StringReader)

def messageField (tag : Nat) (m : WakuMessage) : Read WakuMessage :=
  match tag / 8 with
  | 1 => Read.bytes.map fun v => { m with payload := some v }
  | 2 => strings.read.map fun v => { m with contentTopic := some v }
  | 3 => Read.uint32.map fun v => { m with version := some (UInt32.ofNat v) }
  | 4 => Read.double.map fun v => { m with timestamp := some v }
  | _ => (Read.skipType (tag % 8)).map fun _ => m

def wakuMessage : Decoder WakuMessage where
  base := ⟨none, none, none, none⟩
  field := messageField strings
  forward tag m := by
    unfold messageField
    split
    · exact advances_bytes.map _
    · exact strings.forward.map _
    · exact advances_uint32.map _
    · exact advances_double.map _
    · exact (advances_skipType _).map _

theorem within_wakuMessage : (wakuMessage strings).Within 0 := by
  intro tag m
  show Inside 0 (messageField strings tag m)
  unfold messageField
  split
  · exact Inside.map inside_reading _
  · exact strings.inside.map _
  · exact Inside.map inside_reading _
  · exact Inside.map inside_reading _
  · exact Inside.map inside_reading _

end

/-- The fields that `m` has, over those of `m'`. -/
def WakuMessage.onto (m m' : WakuMessage) : WakuMessage where
  payload := m.payload.or m'.payload
  contentTopic := m.contentTopic.or m'.contentTopic
  version := m.version.or m'.version
  timestamp := m.timestamp.or m'.timestamp

theorem WakuMessage.onto_none (m : WakuMessage) : m.onto ⟨none, none, none, none⟩ = m := by
  simp [WakuMessage.onto]

theorem acts_encodeMessage (strings : StringReader) {m : WakuMessage} (h : m.Sized) :
    (wakuMessage strings).Acts (encodeMessage m) m.onto := by
  obtain ⟨payload, contentTopic, version, timestamp⟩ := m
  have hp : (wakuMessage strings).Acts (payload.elim [] fun b => varint 10 ++ lenPrefixed b)
      fun m => { m with payload := payload.or m.payload } := by
    refine Decoder.acts_option ?_ (by rintro rfl m; rfl)
    rintro v rfl
    exact Decoder.acts_read (fun (m : WakuMessage) v => { m with payload := some v }) (by decide)
      (fun _ => rfl) (reads_bytes (h.payload v rfl))
  have hc : (wakuMessage strings).Acts
      (contentTopic.elim [] fun s => varint 18 ++ lenPrefixed (utf8 s))
      fun m => { m with contentTopic := contentTopic.or m.contentTopic } := by
    refine Decoder.acts_option ?_ (by rintro rfl m; rfl)
    rintro v rfl
    exact Decoder.acts_read (fun (m : WakuMessage) v => { m with contentTopic := some v })
      (by decide) (fun _ => rfl) (strings.reads v (h.contentTopic v rfl))
  have hv : (wakuMessage strings).Acts (version.elim [] fun v => varint 24 ++ varint v.toNat)
      fun m => { m with version := version.or m.version } := by
    refine Decoder.acts_option ?_ (by rintro rfl m; rfl)
    rintro v rfl
    have hread : (wakuMessage strings).Acts (varint 24 ++ varint v.toNat)
        fun m => { m with version := some (UInt32.ofNat v.toNat) } :=
      Decoder.acts_read (fun (m : WakuMessage) n => { m with version := some (UInt32.ofNat n) })
        (by decide) (fun _ => rfl) (reads_uint32 v.toNat_lt)
    rwa [UInt32.ofNat_toNat] at hread
  have ht : (wakuMessage strings).Acts (timestamp.elim [] fun t => varint 33 ++ leBytes 8 t.toNat)
      fun m => { m with timestamp := timestamp.or m.timestamp } := by
    refine Decoder.acts_option ?_ (by rintro rfl m; rfl)
    rintro v rfl
    exact Decoder.acts_read (fun (m : WakuMessage) v => { m with timestamp := some v }) (by decide)
      (fun _ => rfl) (reads_double v)
  exact ((hp.append hc).append hv).append ht

theorem sized_of_length {m : WakuMessage} (h : (encodeMessage m).length < 2 ^ 32) : m.Sized := by
  obtain ⟨payload, contentTopic, version, timestamp⟩ := m
  simp only [encodeMessage, List.length_append] at h
  constructor
  · rintro b rfl
    simp only [Option.elim, lenPrefixed, List.length_append] at h
    omega
  · rintro s rfl
    simp only [Option.elim, lenPrefixed, List.length_append] at h
    omega

section

variable {text : TextReader}

theorem wakuMessage_turn (m : WakuMessage) :
    (wakuMessage (.ofText text)).turn m = reading (decodeField text m) := by
  funext buf pos
  simp only [Decoder.turn, Read.uint32, reading, decodeField]
  cases hr : uint32 (buf.drop pos) with
  | error e => rfl
  | ok r =>
    obtain ⟨tag, rest⟩ := r
    have hrest : rest = buf.drop (buf.length - rest.length) :=
      List.suffix_iff_eq_drop.mp ((uint32Loop_suffix hr).trans (List.drop_suffix pos buf))
    simp only [ok_bind, pure, Except.pure]
    show messageField (.ofText text) tag m buf (buf.length - rest.length) = _
    unfold messageField
    rcases tag / 8 with _ | _ | _ | _ | _ | k
    · simp only [Read.map, Read.skipType, reading, ← hrest]
      cases skipType rest.length (tag % 8) rest <;> rfl
    · simp only [Read.map, Read.bytes, reading, ← hrest]
      cases bytes rest <;> rfl
    · simp only [Read.map, StringReader.ofText, Read.bytes, reading, ← hrest]
      cases bytes rest <;> rfl
    · simp only [Read.map, Read.uint32, reading, ← hrest]
      cases uint32 rest <;> rfl
    · simp only [Read.map, Read.double, reading, ← hrest]
      cases double rest <;> rfl
    · simp only [Read.map, Read.skipType, reading, ← hrest]
      cases skipType rest.length (tag % 8) rest <;> rfl

theorem decodeField_suffix {m m' : WakuMessage} {b rest : Bytes}
    (h : decodeField text m b = .ok (m', rest)) : rest <:+ b := by
  obtain ⟨⟨tag, r⟩, htag, h⟩ := bind_eq_ok h
  refine List.IsSuffix.trans ?_ (uint32Loop_suffix htag)
  simp only at h
  split at h
  · obtain ⟨⟨v, r'⟩, hv, h⟩ := bind_eq_ok h
    cases h; exact bytes_suffix hv
  · obtain ⟨⟨v, r'⟩, hv, h⟩ := bind_eq_ok h
    cases h; exact bytes_suffix hv
  · obtain ⟨⟨v, r'⟩, hv, h⟩ := bind_eq_ok h
    cases h; exact uint32Loop_suffix hv
  · obtain ⟨⟨v, r'⟩, hv, h⟩ := bind_eq_ok h
    cases h; exact double_suffix hv
  · obtain ⟨r', hv, h⟩ := bind_eq_ok h
    cases h; exact skipType_suffix hv

/-- The loop to the end of a buffer is the loop over the bytes left. -/
theorem wakuMessage_fields (m : WakuMessage) (buf : Bytes) (pos : Nat) (hpos : pos ≤ buf.length) :
    (wakuMessage (.ofText text)).fields buf.length m buf pos = do
      let m ← decodeFields text m (buf.drop pos)
      return (m, buf.length) := by
  induction h : buf.length - pos using Nat.strongRecOn generalizing m pos with
  | ind n ih =>
    by_cases hlt : pos < buf.length
    · have hne : buf.drop pos ≠ [] := by simp [List.drop_eq_nil_iff]; omega
      cases hr : decodeField text m (buf.drop pos) with
      | error e =>
        have hturn : (wakuMessage (.ofText text)).turn m buf pos = .error e := by
          rw [wakuMessage_turn, reading, hr]; rfl
        rw [Decoder.fields_error hlt hturn, decodeFields, if_neg hne]
        split
        · rename_i e' he; rw [hr] at he; cases he; rfl
        · rename_i he; rw [hr] at he; cases he
      | ok r =>
        obtain ⟨m', rest⟩ := r
        have hturn : (wakuMessage (.ofText text)).turn m buf pos =
            .ok (m', buf.length - rest.length) := by
          rw [wakuMessage_turn, reading, hr]; rfl
        have hrest : rest = buf.drop (buf.length - rest.length) :=
          List.suffix_iff_eq_drop.mp ((decodeField_suffix hr).trans (List.drop_suffix pos buf))
        have hfwd := Decoder.turn_lt _ hturn
        rw [Decoder.fields_step hlt hturn, decodeFields_step hne hr,
          ih _ (by omega) m' _ (by omega) rfl, ← hrest]
    · have hnil : buf.drop pos = [] := List.drop_eq_nil_of_le (by omega)
      rw [Decoder.fields_done (by omega), hnil, decodeFields_nil]
      have heq : pos = buf.length := by omega
      rw [heq]
      rfl

theorem wakuMessage_decode (buf : Bytes) :
    (wakuMessage (.ofText text)).decode buf = (wireCodec text).decode buf := by
  rw [Decoder.decode, wakuMessage_fields _ _ _ (Nat.zero_le _), List.drop_zero]
  show _ = decodeFields text ⟨none, none, none, none⟩ buf
  cases hr : decodeFields text ⟨none, none, none, none⟩ buf with
  | error e => simp only [wakuMessage, hr]; rfl
  | ok m => simp only [wakuMessage, hr]; rfl

/-- A message with fields that this version does not know. -/
theorem wakuMessage_extended {m : WakuMessage} {b : Bytes} (hm : m.Sized)
    (h : (wakuMessage (.ofText text)).Extends (encodeMessage m) b) :
    (wireCodec text).decode b = .ok m := by
  have hread := Decoder.decode_of_acts (acts_encodeMessage (.ofText text) hm)
  rw [← wakuMessage_decode, Decoder.extends_decode h, hread]
  exact congrArg _ m.onto_none

end

/-- A payload in front of a field of four bytes. -/
theorem wakuMessage_extended_payload :
    (wireCodec .strict).decode (varint 10 ++ lenPrefixed [1, 2] ++
      (varint 125 ++ [0, 0, 0, 0] ++ [])) = .ok ⟨some [1, 2], none, none, none⟩ := by
  have hread := fun m : WakuMessage =>
    (reads_bytes (show [1, 2].length < 2 ^ 32 by decide)).map fun v => { m with payload := some v }
  refine wakuMessage_extended ⟨by rintro v ⟨⟩; decide, by rintro s ⟨⟩⟩ ?_
  simp only [encodeMessage, Option.elim, List.append_nil]
  have hunknown := Decoder.Extends.unknown (d := wakuMessage (.ofText .strict)) (u := [0, 0, 0, 0])
    (show 125 < 2 ^ 32 by decide) (fun _ => rfl) (.four rfl) .nil
  have hfield := Decoder.Extends.field (d := wakuMessage (.ofText .strict))
    (show 10 < 2 ^ 32 by decide) hread hunknown
  simpa using hfield

end Proto
end JsWaku
