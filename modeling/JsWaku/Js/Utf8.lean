import JsWaku.Js.Bytes
import JsWaku.Js.Json

/-!
# JsWaku.Js.Utf8

Text as bytes: `Buffer.from(s, 'utf-8')` and `buffer.toString('utf-8')`.

A string may hold a surrogate without its partner, and bytes need not be UTF-8. Both ways
`U+FFFD` stands in for what cannot be converted.

* `scalars`, `toWellFormed` — the characters of a string, and the string that has just those.
* `encodeUtf8`, `decodeUtf8` — there and back.
* `decodeUtf8_encodeUtf8`   — a string comes back well-formed.
* `encodeUtf8_decodeUtf8_iff` — bytes come back exactly if they are UTF-8.
-/

namespace JsWaku
namespace Js

def replacement : Char := '\uFFFD'

def High (u : UInt16) : Prop := 0xD800 ≤ u.toNat ∧ u.toNat < 0xDC00

def Low (u : UInt16) : Prop := 0xDC00 ≤ u.toNat ∧ u.toNat < 0xE000

instance (u : UInt16) : Decidable (High u) := inferInstanceAs (Decidable (_ ∧ _))

instance (u : UInt16) : Decidable (Low u) := inferInstanceAs (Decidable (_ ∧ _))

/-- The character of a unit on its own. -/
def unitChar (u : UInt16) : Char :=
  if High u ∨ Low u then replacement else Char.ofNat u.toNat

def pairChar (u v : UInt16) : Char :=
  Char.ofNat (0x10000 + (u.toNat - 0xD800) * 0x400 + (v.toNat - 0xDC00))

def scalars : JsString → List Char
  | [] => []
  | [u] => [unitChar u]
  | u :: v :: rest =>
    if High u ∧ Low v then pairChar u v :: scalars rest else unitChar u :: scalars (v :: rest)

/-- `s.toWellFormed()` -/
def toWellFormed (s : JsString) : JsString := (scalars s).flatMap utf16

/-- `s.isWellFormed()`: no surrogate is without its partner. -/
inductive IsWellFormed : JsString → Prop where
  | nil : IsWellFormed []
  | unit {u : UInt16} {s : JsString} : ¬ High u → ¬ Low u → IsWellFormed s → IsWellFormed (u :: s)
  | pair {u v : UInt16} {s : JsString} : High u → Low v → IsWellFormed s → IsWellFormed (u :: v :: s)

section

variable {c : Char} {u v : UInt16} {s : JsString}

theorem toNat_char (c : Char) : c.toNat < 0xD800 ∨ 0xDFFF < c.toNat ∧ c.toNat < 0x110000 := c.valid

theorem toNat_ofNat {n : Nat} (h : n < 0xD800 ∨ 0xDFFF < n ∧ n < 0x110000) :
    (Char.ofNat n).toNat = n := by
  have hvalid : n.isValidChar := h
  rw [Char.ofNat, dif_pos hvalid]
  rfl

theorem toNat_unit {n : Nat} (h : n < 0x10000) : n.toUInt16.toNat = n := by
  simp only [Nat.toUInt16_eq, UInt16.toNat_ofNat']
  omega

theorem scalars_cons (h : ¬ High u) : scalars (u :: s) = unitChar u :: scalars s := by
  cases s with
  | nil => rfl
  | cons v s => rw [scalars, if_neg fun hpair => h hpair.1]

theorem scalars_pair (hu : High u) (hv : Low v) : scalars (u :: v :: s) = pairChar u v :: scalars s := by
  rw [scalars, if_pos ⟨hu, hv⟩]

theorem utf16_small (h : c.toNat < 0x10000) : utf16 c = [c.toNat.toUInt16] := if_pos h

theorem utf16_large (h : ¬ c.toNat < 0x10000) :
    utf16 c = [(0xD800 + (c.toNat - 0x10000) / 0x400).toUInt16,
      (0xDC00 + (c.toNat - 0x10000) % 0x400).toUInt16] := if_neg h

theorem utf16_unitChar (hu : ¬ High u) (hv : ¬ Low u) : utf16 (unitChar u) = [u] := by
  have hlt := u.toNat_lt
  have hchar : (unitChar u).toNat = u.toNat := by
    rw [unitChar, if_neg (not_or.mpr ⟨hu, hv⟩)]
    unfold High at hu
    unfold Low at hv
    exact toNat_ofNat (by omega)
  rw [utf16_small (by omega), hchar]
  simp

theorem utf16_pairChar (hu : High u) (hv : Low v) : utf16 (pairChar u v) = [u, v] := by
  unfold High at hu
  unfold Low at hv
  have hchar : (pairChar u v).toNat = 0x10000 + (u.toNat - 0xD800) * 0x400 + (v.toNat - 0xDC00) :=
    toNat_ofNat (by omega)
  have hfirst : 0xD800 + ((pairChar u v).toNat - 0x10000) / 0x400 = u.toNat := by omega
  have hsecond : 0xDC00 + ((pairChar u v).toNat - 0x10000) % 0x400 = v.toNat := by omega
  rw [utf16_large (by omega), hfirst, hsecond]
  simp

/-- The units of a character. -/
inductive UnitsOf (c : Char) : JsString → Prop where
  | unit {u : UInt16} : ¬ High u → ¬ Low u → unitChar u = c → UnitsOf c [u]
  | pair {u v : UInt16} : High u → Low v → pairChar u v = c → UnitsOf c [u, v]

theorem unitsOf_utf16 (c : Char) : UnitsOf c (utf16 c) := by
  have hvalid := toNat_char c
  by_cases hsmall : c.toNat < 0x10000
  · have hunit := toNat_unit hsmall
    have hhigh : ¬ High c.toNat.toUInt16 := by
      unfold High
      omega
    have hlow : ¬ Low c.toNat.toUInt16 := by
      unfold Low
      omega
    rw [utf16_small hsmall]
    refine .unit hhigh hlow ?_
    rw [unitChar, if_neg (not_or.mpr ⟨hhigh, hlow⟩), hunit, Char.ofNat_toNat]
  · have hfirst : (0xD800 + (c.toNat - 0x10000) / 0x400).toUInt16.toNat =
        0xD800 + (c.toNat - 0x10000) / 0x400 := toNat_unit (by omega)
    have hsecond : (0xDC00 + (c.toNat - 0x10000) % 0x400).toUInt16.toNat =
        0xDC00 + (c.toNat - 0x10000) % 0x400 := toNat_unit (by omega)
    have hchar : 0x10000 + (0xD800 + (c.toNat - 0x10000) / 0x400 - 0xD800) * 0x400 +
        (0xDC00 + (c.toNat - 0x10000) % 0x400 - 0xDC00) = c.toNat := by omega
    rw [utf16_large hsmall]
    refine .pair ?_ ?_ ?_
    · unfold High
      omega
    · unfold Low
      omega
    · rw [pairChar, hfirst, hsecond, hchar, Char.ofNat_toNat]

theorem scalars_utf16 (c : Char) (s : JsString) : scalars (utf16 c ++ s) = c :: scalars s := by
  have hunits := unitsOf_utf16 c
  generalize utf16 c = us at hunits ⊢
  cases hunits with
  | unit hhigh _ hchar => rw [List.singleton_append, scalars_cons hhigh, hchar]
  | pair hhigh hlow hchar =>
    rw [List.cons_append, List.singleton_append, scalars_pair hhigh hlow, hchar]

theorem scalars_flatMap_utf16 (cs : List Char) : scalars (cs.flatMap utf16) = cs := by
  induction cs with
  | nil => rfl
  | cons c cs ih => rw [List.flatMap_cons, scalars_utf16, ih]

theorem toWellFormed_of_isWellFormed (h : IsWellFormed s) : toWellFormed s = s := by
  induction h with
  | nil => rfl
  | unit hhigh hlow _ ih =>
    rw [toWellFormed, scalars_cons hhigh, List.flatMap_cons, utf16_unitChar hhigh hlow]
    exact congrArg _ ih
  | pair hhigh hlow _ ih =>
    rw [toWellFormed, scalars_pair hhigh hlow, List.flatMap_cons, utf16_pairChar hhigh hlow]
    exact congrArg _ ih

theorem isWellFormed_flatMap_utf16 (cs : List Char) : IsWellFormed (cs.flatMap utf16) := by
  induction cs with
  | nil => exact .nil
  | cons c cs ih =>
    have hunits := unitsOf_utf16 c
    rw [List.flatMap_cons]
    generalize utf16 c = us at hunits ⊢
    cases hunits with
    | unit hhigh hlow _ => exact .unit hhigh hlow ih
    | pair hhigh hlow _ => exact .pair hhigh hlow ih

theorem toWellFormed_eq_iff : toWellFormed s = s ↔ IsWellFormed s := by
  constructor
  · intro h
    rw [← h]
    exact isWellFormed_flatMap_utf16 _
  · exact toWellFormed_of_isWellFormed

end

/-! ## Bytes -/

def encodeUtf8 (s : JsString) : Bytes := (scalars s).flatMap String.utf8EncodeChar

/-- A character that has begun: the bytes it needs, the bounds on the next one, and its number as
far as known. -/
structure Begun where
  needed : Nat
  lower : Nat
  upper : Nat
  codePoint : Nat

/-- A byte where a character may begin. -/
def begin (byte : Nat) : List Char × Option Begun :=
  if byte ≤ 0x7F then ([Char.ofNat byte], none)
  else if 0xC2 ≤ byte ∧ byte ≤ 0xDF then ([], some ⟨1, 0x80, 0xBF, byte % 0x20⟩)
  else if 0xE0 ≤ byte ∧ byte ≤ 0xEF then
    -- No three bytes for what fits in two, and none for a surrogate.
    ([], some ⟨2, if byte = 0xE0 then 0xA0 else 0x80, if byte = 0xED then 0x9F else 0xBF,
      byte % 0x10⟩)
  else if 0xF0 ≤ byte ∧ byte ≤ 0xF4 then
    ([], some ⟨3, if byte = 0xF0 then 0x90 else 0x80, if byte = 0xF4 then 0x8F else 0xBF,
      byte % 0x8⟩)
  else ([replacement], none)

def feed : Option Begun → Nat → List Char × Option Begun
  | none, byte => begin byte
  | some b, byte =>
    if b.lower ≤ byte ∧ byte ≤ b.upper then
      let codePoint := b.codePoint * 0x40 + byte % 0x40
      if b.needed = 1 then ([Char.ofNat codePoint], none)
      else ([], some ⟨b.needed - 1, 0x80, 0xBF, codePoint⟩)
    else
      -- The byte is looked at again.
      let (cs, b) := begin byte
      (replacement :: cs, b)

def decodeScalars : Option Begun → Bytes → List Char
  | none, [] => []
  | some _, [] => [replacement]
  | b, byte :: rest => (feed b byte.toNat).1 ++ decodeScalars (feed b byte.toNat).2 rest

def decodeUtf8 (bytes : Bytes) : JsString := (decodeScalars none bytes).flatMap utf16

section

variable {c : Char} {rest : Bytes}

theorem toNat_byte {n : Nat} (h : n < 0x100) : (UInt8.ofNat n).toNat = n := by
  rw [UInt8.toNat_ofNat']
  omega

theorem begin_two {n : Nat} (hlower : 0xC2 ≤ n) (hupper : n ≤ 0xDF) :
    begin n = ([], some ⟨1, 0x80, 0xBF, n % 0x20⟩) := by
  rw [begin, if_neg (by omega), if_pos ⟨hlower, hupper⟩]

theorem begin_three {n : Nat} (hlower : 0xE0 ≤ n) (hupper : n ≤ 0xEF) :
    begin n = ([], some ⟨2, if n = 0xE0 then 0xA0 else 0x80, if n = 0xED then 0x9F else 0xBF,
      n % 0x10⟩) := by
  rw [begin, if_neg (by omega), if_neg (by omega), if_pos ⟨hlower, hupper⟩]

theorem begin_four {n : Nat} (hlower : 0xF0 ≤ n) (hupper : n ≤ 0xF4) :
    begin n = ([], some ⟨3, if n = 0xF0 then 0x90 else 0x80, if n = 0xF4 then 0x8F else 0xBF,
      n % 0x8⟩) := by
  rw [begin, if_neg (by omega), if_neg (by omega), if_neg (by omega), if_pos ⟨hlower, hupper⟩]

theorem decodeScalars_begin {n : Nat} (h : n < 0x100) :
    decodeScalars none (UInt8.ofNat n :: rest) =
      (begin n).1 ++ decodeScalars (begin n).2 rest := by
  rw [decodeScalars, toNat_byte h]
  rfl

/-- A byte within the bounds that is not the last. -/
theorem decodeScalars_more {needed lower upper codePoint n : Nat} (h : n < 0x100)
    (hlower : lower ≤ n) (hupper : n ≤ upper) :
    decodeScalars (some ⟨needed + 2, lower, upper, codePoint⟩) (UInt8.ofNat n :: rest) =
      decodeScalars (some ⟨needed + 1, 0x80, 0xBF, codePoint * 0x40 + n % 0x40⟩) rest := by
  rw [decodeScalars, toNat_byte h, feed, if_pos ⟨hlower, hupper⟩, if_neg (by simp)]
  rfl

theorem decodeScalars_last {lower upper codePoint n : Nat} (h : n < 0x100) (hlower : lower ≤ n)
    (hupper : n ≤ upper) :
    decodeScalars (some ⟨1, lower, upper, codePoint⟩) (UInt8.ofNat n :: rest) =
      Char.ofNat (codePoint * 0x40 + n % 0x40) :: decodeScalars none rest := by
  rw [decodeScalars, toNat_byte h, feed, if_pos ⟨hlower, hupper⟩, if_pos rfl]
  rfl

theorem decodeScalars_encode (c : Char) (rest : Bytes) :
    decodeScalars none (String.utf8EncodeChar c ++ rest) = c :: decodeScalars none rest := by
  have hvalid := toNat_char c
  have hval : c.val.toNat = c.toNat := rfl
  simp only [String.utf8EncodeChar, hval]
  split
  · rename_i h
    rw [List.singleton_append, decodeScalars_begin (by omega), begin, if_pos h, Char.ofNat_toNat]
    rfl
  split
  · have hchar : (c.toNat / 64 % 0x20 + 0xc0) % 0x20 * 0x40 + (c.toNat % 0x40 + 0x80) % 0x40 =
        c.toNat := by omega
    simp only [List.cons_append, List.nil_append]
    rw [decodeScalars_begin (by omega), begin_two (by omega) (by omega), List.nil_append,
      decodeScalars_last (by omega) (by omega) (by omega), hchar, Char.ofNat_toNat]
  split
  · have hchar : ((c.toNat / 4096 % 0x10 + 0xe0) % 0x10 * 0x40 +
        (c.toNat / 64 % 0x40 + 0x80) % 0x40) * 0x40 + (c.toNat % 0x40 + 0x80) % 0x40 =
        c.toNat := by omega
    simp only [List.cons_append, List.nil_append]
    rw [decodeScalars_begin (by omega), begin_three (by omega) (by omega), List.nil_append,
      decodeScalars_more (by omega) (by split <;> omega) (by split <;> omega),
      decodeScalars_last (by omega) (by omega) (by omega), hchar, Char.ofNat_toNat]
  · have hchar : (((c.toNat / 262144 % 0x08 + 0xf0) % 0x08 * 0x40 +
        (c.toNat / 4096 % 0x40 + 0x80) % 0x40) * 0x40 +
        (c.toNat / 64 % 0x40 + 0x80) % 0x40) * 0x40 + (c.toNat % 0x40 + 0x80) % 0x40 =
        c.toNat := by omega
    simp only [List.cons_append, List.nil_append]
    rw [decodeScalars_begin (by omega), begin_four (by omega) (by omega), List.nil_append,
      decodeScalars_more (by omega) (by split <;> omega) (by split <;> omega),
      decodeScalars_more (by omega) (by omega) (by omega),
      decodeScalars_last (by omega) (by omega) (by omega), hchar, Char.ofNat_toNat]

theorem decodeScalars_flatMap (cs : List Char) :
    decodeScalars none (cs.flatMap String.utf8EncodeChar) = cs := by
  induction cs with
  | nil => rfl
  | cons c cs ih => rw [List.flatMap_cons, decodeScalars_encode, ih]

end

theorem decodeUtf8_encodeUtf8 (s : JsString) : decodeUtf8 (encodeUtf8 s) = toWellFormed s := by
  rw [decodeUtf8, encodeUtf8, decodeScalars_flatMap, toWellFormed]

/-- The bytes of some text. -/
def IsUtf8 (bytes : Bytes) : Prop := ∃ cs : List Char, bytes = cs.flatMap String.utf8EncodeChar

theorem encodeUtf8_decodeUtf8_iff {bytes : Bytes} :
    encodeUtf8 (decodeUtf8 bytes) = bytes ↔ IsUtf8 bytes := by
  unfold encodeUtf8 decodeUtf8
  rw [scalars_flatMap_utf16]
  constructor
  · intro h
    exact ⟨_, h.symm⟩
  · rintro ⟨cs, rfl⟩
    rw [decodeScalars_flatMap]

end Js
end JsWaku
