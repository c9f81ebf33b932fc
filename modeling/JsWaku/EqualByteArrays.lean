import JsWaku.Utils

/-!
# JsWaku.EqualByteArrays

What `equalByteArrays` of `lib/utils.ts` decides.

* `BytesOrHex.Denotes` — the bytes an argument stands for; text that is no hex stands for none.
* `equalByteArrays_decides_iff` — equality of these is decided unless a malformed text begins with
  digits for the bytes of the other; text made by `bufToHex` is recognised in any casing.
-/

namespace JsWaku

open Js

def BytesOrHex.Denotes : BytesOrHex → Bytes → Prop
  | .bytes b, x => b = x
  | .text s, x => Js.Denotes (stripHexPrefix s.toList) x

/-- The bytes of the digits in front, whatever comes after them. -/
def BytesOrHex.Begins : BytesOrHex → Bytes → Prop
  | .bytes b, x => b = x
  | .text s, x => Js.Denotes (hexRun (stripHexPrefix s.toList)) x

def BytesOrHex.Malformed (a : BytesOrHex) : Prop := ¬ ∃ x, a.Denotes x

def DecidesEquality (a b : BytesOrHex) : Prop :=
  equalByteArrays a b = true ↔ ∃ x, a.Denotes x ∧ b.Denotes x

/-- `s` is what `bufToHex` gives for `b` in some casing, with a prefix or without. -/
structure CasingOf (s : String) (b : Bytes) : Prop where
  digits : ∃ pre ∈ ["", "0x", "0X"], ∃ text : String, s = pre ++ text ∧
    text.toList.map Char.toLower = (bufToHex b).toList

section

variable {a b : BytesOrHex} {x : Bytes}

theorem begins_iff : a.Begins x ↔ hexToBuf a = x := by
  cases a with
  | bytes b => rfl
  | text s =>
    have hrun := hexDecode_denotes (stripHexPrefix s.toList)
    constructor
    · intro h
      exact hrun.unique h
    · rintro rfl
      exact hrun

theorem BytesOrHex.Denotes.begins (h : a.Denotes x) : a.Begins x := by
  cases a with
  | bytes b => exact h
  | text s =>
    have hrun := h.hexRun
    rw [BytesOrHex.Begins, hrun]
    exact h

theorem equalByteArrays_iff : equalByteArrays a b = true ↔ ∃ x, a.Begins x ∧ b.Begins x := by
  have heq : equalByteArrays a b = true ↔ hexToBuf a = hexToBuf b := by
    cases a <;> cases b <;> exact decide_eq_true_iff
  rw [heq]
  simp only [begins_iff]
  constructor
  · intro h
    exact ⟨_, h, rfl⟩
  · rintro ⟨x, ha, hb⟩
    exact ha.trans hb.symm

/-- An argument that is no malformed text begins with all it denotes. -/
theorem denotes_of_begins (h : ¬ a.Malformed) (hx : a.Begins x) : a.Denotes x := by
  obtain ⟨y, hy⟩ := not_not.mp h
  have hsame := (begins_iff.mp hy.begins).symm.trans (begins_iff.mp hx)
  rwa [← hsame]

theorem decidesEquality_iff : DecidesEquality a b ↔
    (a.Malformed ∨ b.Malformed → ¬ ∃ x, a.Begins x ∧ b.Begins x) := by
  rw [DecidesEquality, equalByteArrays_iff]
  constructor
  · intro h hbad hbegin
    obtain ⟨x, ha, hb⟩ := h.mp hbegin
    exact hbad.elim (fun hbad => hbad ⟨x, ha⟩) fun hbad => hbad ⟨x, hb⟩
  · intro h
    constructor
    · intro hbegin
      obtain ⟨hgood, hgood'⟩ := not_or.mp fun hbad => h hbad hbegin
      obtain ⟨x, ha, hb⟩ := hbegin
      exact ⟨x, denotes_of_begins hgood ha, denotes_of_begins hgood' hb⟩
    · rintro ⟨x, ha, hb⟩
      exact ⟨x, ha.begins, hb.begins⟩

end

/-- No digit is an `x`, so there is nothing to strip. -/
theorem stripHexPrefix_digits {cs : List Char} {b : Bytes} (h : Js.Denotes cs b) :
    stripHexPrefix cs = cs := by
  cases h with
  | nil => rfl
  | pair hhi hlo hrest =>
    unfold stripHexPrefix
    split
    · rename_i heq
      cases heq
      cases hlo
    · rename_i heq
      cases heq
      cases hlo
    · rfl

theorem denotes_casingOf {s : String} {b : Bytes} (h : CasingOf s b) :
    (BytesOrHex.text s).Denotes b := by
  obtain ⟨pre, hpre, text, rfl, hdigits⟩ := h.digits
  rw [bufToHex, String.toList_ofList] at hdigits
  have htext := denotes_casing hdigits
  simp only [List.mem_cons, List.not_mem_nil, or_false] at hpre
  rw [BytesOrHex.Denotes, String.toList_append]
  rcases hpre with rfl | rfl | rfl
  · rw [String.toList_empty, List.nil_append, stripHexPrefix_digits htext]
    exact htext
  · exact htext
  · exact htext

theorem equalByteArrays_decides_iff (a b : BytesOrHex) (bytes : Bytes) :
    (DecidesEquality a b ↔ (a.Malformed ∨ b.Malformed → ¬ ∃ x, a.Begins x ∧ b.Begins x)) ∧
      ∀ s, CasingOf s bytes → equalByteArrays (.text s) (.bytes bytes) = true := by
  refine ⟨decidesEquality_iff, fun s h => ?_⟩
  exact equalByteArrays_iff.mpr ⟨bytes, (denotes_casingOf h).begins, rfl⟩

/-- The text stops being hex after one byte, and is that byte all the same. -/
theorem equalByteArrays_trailing :
    equalByteArrays (.text "0xabzz") (.bytes [171]) = true ∧
      (BytesOrHex.text "0xabzz").Malformed ∧
      ¬ DecidesEquality (.text "0xabzz") (.bytes [171]) := by
  have hequal : equalByteArrays (.text "0xabzz") (.bytes [171]) = true := by decide
  have hbad : (BytesOrHex.text "0xabzz").Malformed := by
    rintro ⟨x, hx⟩
    have hrun : hexRun ['a', 'b', 'z', 'z'] = ['a', 'b', 'z', 'z'] := Denotes.hexRun hx
    exact absurd hrun (by decide)
  refine ⟨hequal, hbad, fun h => ?_⟩
  obtain ⟨x, hx, _⟩ := h.mp hequal
  exact hbad ⟨x, hx⟩

end JsWaku
