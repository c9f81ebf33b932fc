import JsWaku.Js.Bytes

/-!
# JsWaku.Js.Hex

Hex text: what it denotes, what `Buffer.from(s, 'hex')` makes of text that is no hex, and
`buf.toString('hex')`.

* `Denotes`   — an even number of digits, and the bytes they stand for.
* `hexRun`    — the digits a text begins with, in pairs; `hexDecode` reads those and no others
  (`hexDecode_denotes`).
* `hexEncode` — text of a byte string; in any casing it denotes the byte string
  (`denotes_casing`).
-/

namespace JsWaku
namespace Js

/-- Pairs of digits of either case, and their bytes. -/
inductive Denotes : List Char → Bytes → Prop where
  | nil : Denotes [] []
  | pair {hi lo : Char} {h l : UInt8} {cs : List Char} {b : Bytes} (hhi : hexDigit hi = some h)
      (hlo : hexDigit lo = some l) (hrest : Denotes cs b) :
      Denotes (hi :: lo :: cs) ((h * 16 + l) :: b)

/-- The digits a text begins with, less a last odd one. -/
def hexRun (cs : List Char) : List Char :=
  let digits := cs.takeWhile fun c => (hexDigit c).isSome
  digits.take (2 * (digits.length / 2))

/-- `buf.toString('hex')` -/
def hexEncode : Bytes → List Char
  | [] => []
  | x :: b => Nat.digitChar (x.toNat / 16) :: Nat.digitChar (x.toNat % 16) :: hexEncode b

section

variable {cs : List Char} {b b' : Bytes}

theorem Denotes.hexDecode (h : Denotes cs b) : hexDecode cs = b := by
  induction h with
  | nil => rfl
  | pair hhi hlo _ ih => simp [Js.hexDecode, hhi, hlo, ih]

/-- A text denotes one byte string at most. -/
theorem Denotes.unique (h : Denotes cs b) (h' : Denotes cs b') : b = b' :=
  h.hexDecode.symm.trans h'.hexDecode

theorem hexRun_pair {hi lo : Char} (hhi : (hexDigit hi).isSome) (hlo : (hexDigit lo).isSome) :
    hexRun (hi :: lo :: cs) = hi :: lo :: hexRun cs := by
  simp only [hexRun, List.takeWhile_cons, hhi, hlo, ite_true, List.length_cons]
  rw [show 2 * (((cs.takeWhile fun c => (hexDigit c).isSome).length + 1 + 1) / 2) =
    2 * ((cs.takeWhile fun c => (hexDigit c).isSome).length / 2) + 1 + 1 by omega]
  rfl

theorem hexRun_stop {hi lo : Char} (h : ¬ ((hexDigit hi).isSome ∧ (hexDigit lo).isSome)) :
    hexRun (hi :: lo :: cs) = [] := by
  unfold hexRun
  by_cases hhi : (hexDigit hi).isSome
  · have hlo : ¬ (hexDigit lo).isSome := fun hlo => h ⟨hhi, hlo⟩
    simp [hhi, hlo]
  · simp [hhi]

theorem hexRun_single (c : Char) : hexRun [c] = [] := by
  unfold hexRun
  by_cases hc : (hexDigit c).isSome <;> simp [hc]

theorem hexDecode_stop {hi lo : Char} (h : ¬ ((hexDigit hi).isSome ∧ (hexDigit lo).isSome)) :
    hexDecode (hi :: lo :: cs) = [] := by
  unfold hexDecode
  split
  · rename_i hhi hlo
    exact absurd ⟨by rw [hhi]; rfl, by rw [hlo]; rfl⟩ h
  · rfl

/-- The decoder reads the digits in front and drops the rest. -/
theorem hexDecode_denotes : (cs : List Char) → Denotes (hexRun cs) (hexDecode cs)
  | [] => .nil
  | [c] => by
    rw [hexRun_single]
    exact .nil
  | hi :: lo :: rest => by
    by_cases hdigits : (hexDigit hi).isSome ∧ (hexDigit lo).isSome
    · obtain ⟨h, hhi⟩ := Option.isSome_iff_exists.mp hdigits.1
      obtain ⟨l, hlo⟩ := Option.isSome_iff_exists.mp hdigits.2
      rw [hexRun_pair (by rw [hhi]; rfl) (by rw [hlo]; rfl)]
      simp only [hexDecode, hhi, hlo]
      exact .pair hhi hlo (hexDecode_denotes rest)
    · rw [hexRun_stop hdigits, hexDecode_stop hdigits]
      exact .nil

theorem Denotes.hexRun (h : Denotes cs b) : hexRun cs = cs := by
  induction h with
  | nil => rfl
  | pair hhi hlo _ ih => rw [hexRun_pair (by rw [hhi]; rfl) (by rw [hlo]; rfl), ih]

/-! ## Encoding -/

theorem hexDigit_digitChar {n : Nat} (h : n < 16) :
    hexDigit (Nat.digitChar n) = some (UInt8.ofNat n) := by
  revert n
  decide

theorem hexDigit_eq (c : Char) : hexDigit c =
    if 48 ≤ c.toNat ∧ c.toNat ≤ 57 then some (UInt8.ofNat (c.toNat - 48))
    else if 97 ≤ c.toNat ∧ c.toNat ≤ 102 then some (UInt8.ofNat (c.toNat - 97 + 10))
    else if 65 ≤ c.toNat ∧ c.toNat ≤ 70 then some (UInt8.ofNat (c.toNat - 65 + 10))
    else none := by
  simp only [hexDigit, Char.le_def, UInt32.le_iff_toNat_le]
  rfl

theorem toNat_toLower (c : Char) :
    c.toLower.toNat = if 65 ≤ c.toNat ∧ c.toNat ≤ 90 then c.toNat + 32 else c.toNat := by
  have hupper : (c.val ≥ 'A'.val ∧ c.val ≤ 'Z'.val) ↔ 65 ≤ c.toNat ∧ c.toNat ≤ 90 := by
    simp only [ge_iff_le, UInt32.le_iff_toNat_le]
    rfl
  unfold Char.toLower
  by_cases h : 65 ≤ c.toNat ∧ c.toNat ≤ 90
  · rw [dif_pos (hupper.mpr h), if_pos h]
    have hadd : (c.val + ('a'.val - 'A'.val)).toNat = (c.toNat + 32) % 2 ^ 32 :=
      UInt32.toNat_add _ _
    rw [Char.toNat, hadd, Nat.mod_eq_of_lt (by omega)]
  · rw [dif_neg (fun hc => h (hupper.mp hc)), if_neg h]

theorem hexDigit_toLower (c : Char) : hexDigit c.toLower = hexDigit c := by
  rw [hexDigit_eq, hexDigit_eq, toNat_toLower]
  by_cases hupper : 65 ≤ c.toNat ∧ c.toNat ≤ 90
  · have hnumber : ¬ (48 ≤ c.toNat ∧ c.toNat ≤ 57) := by omega
    have hlower : ¬ (97 ≤ c.toNat ∧ c.toNat ≤ 102) := by omega
    have hnumber' : ¬ (48 ≤ c.toNat + 32 ∧ c.toNat + 32 ≤ 57) := by omega
    have hupper' : ¬ (65 ≤ c.toNat + 32 ∧ c.toNat + 32 ≤ 70) := by omega
    rw [if_pos hupper, if_neg hnumber, if_neg hlower, if_neg hnumber', if_neg hupper']
    by_cases hdigit : c.toNat ≤ 70
    · have hvalue : c.toNat + 32 - 97 + 10 = c.toNat - 65 + 10 := by omega
      rw [if_pos (by omega), if_pos (by omega), hvalue]
    · rw [if_neg (by omega), if_neg (by omega)]
  · rw [if_neg hupper]

theorem denotes_hexEncode (b : Bytes) : Denotes (hexEncode b) b := by
  induction b with
  | nil => exact .nil
  | cons x b ih =>
    have hlt := x.toNat_lt
    have hx : UInt8.ofNat (x.toNat / 16) * 16 + UInt8.ofNat (x.toNat % 16) = x := by
      apply UInt8.toNat_inj.mp
      have h16 : (16 : UInt8).toNat = 16 := rfl
      simp only [UInt8.toNat_add, UInt8.toNat_mul, UInt8.toNat_ofNat', h16]
      omega
    have hpair := Denotes.pair (hexDigit_digitChar (n := x.toNat / 16) (by omega))
      (hexDigit_digitChar (n := x.toNat % 16) (by omega)) ih
    rwa [hx] at hpair

/-- Lower case denotes what upper case does. -/
theorem Denotes.of_toLower (h : Denotes (cs.map Char.toLower) b) : Denotes cs b := by
  generalize hlower : cs.map Char.toLower = lower at h
  induction h generalizing cs with
  | nil =>
    rw [List.map_eq_nil_iff.mp hlower]
    exact .nil
  | pair hhi hlo _ ih =>
    obtain ⟨hi, cs, rfl, rfl, hrest⟩ := List.map_eq_cons_iff.mp hlower
    obtain ⟨lo, cs, rfl, rfl, htail⟩ := List.map_eq_cons_iff.mp hrest
    rw [hexDigit_toLower] at hhi hlo
    exact .pair hhi hlo (ih htail)

/-- The text of a byte string, in any casing, denotes it. -/
theorem denotes_casing (h : cs.map Char.toLower = hexEncode b) : Denotes cs b := by
  refine Denotes.of_toLower ?_
  rw [h]
  exact denotes_hexEncode b

end

end Js
end JsWaku
