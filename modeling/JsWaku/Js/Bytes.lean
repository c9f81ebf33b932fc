import JsWaku.Js.Value
import Mathlib.Data.Nat.Digits.Lemmas

/-!
# JsWaku.Js.Bytes

Byte strings with the operations of Node's `Buffer` that protocol code uses: `slice` with its
negative and clamped bounds, the checked integer reads, `writeUInt32LE` and hex decoding.

* `slice`       — `Buffer.slice` and `Array.slice` share it.
* `readUIntLE`  — a read past the end throws.
* `leVal`, `leBytes` — little-endian value of a byte string and its inverse at a fixed width
  (`leVal_leBytes`).
-/

namespace JsWaku
namespace Js

abbrev Bytes := List UInt8

/-- Where a slice bound points: a negative bound counts from the end, and both ends clamp. -/
def sliceBound (len : Nat) (i : Int) : Nat :=
  if i < 0 then (i + len).toNat else min i.toNat len

/-- `xs.slice(start, stop)` -/
def slice {α : Type} (xs : List α) (start stop : Int) : List α :=
  (xs.take (sliceBound xs.length stop)).drop (sliceBound xs.length start)

/-- `xs.slice(start)` -/
def sliceFrom {α : Type} (xs : List α) (start : Int) : List α :=
  xs.drop (sliceBound xs.length start)

theorem sliceBound_of_nonneg {len i : Nat} (h : i ≤ len) : sliceBound len (i : Int) = i := by
  simp [sliceBound, h]

theorem sliceBound_le (len : Nat) (i : Int) : sliceBound len i ≤ len := by
  unfold sliceBound; split <;> omega

theorem sliceBound_sub {len k : Nat} (h : k ≤ len) :
    sliceBound len ((len : Int) - k) = len - k := by
  unfold sliceBound; split <;> omega

/-- With both bounds inside the list, `slice` takes a window of it. -/
theorem slice_append {α : Type} (a b c : List α) :
    slice (a ++ b ++ c) a.length (a.length + b.length) = b := by
  have h1 : sliceBound (a ++ b ++ c).length a.length = a.length :=
    sliceBound_of_nonneg (by simp)
  have h2 : sliceBound (a ++ b ++ c).length (a.length + b.length) = (a ++ b).length := by
    have hle : a.length + b.length ≤ (a ++ b ++ c).length := by simp
    simpa using sliceBound_of_nonneg hle
  rw [slice, h1, h2, List.take_left, List.drop_left]

/-- From inside the list, `slice` takes what there is of a window. -/
theorem slice_window {α : Type} {xs : List α} {a : Nat} (h : a ≤ xs.length) (n : Nat) :
    slice xs (a : Int) ((a : Int) + n) = (xs.drop a).take n := by
  have hstop : sliceBound xs.length ((a : Int) + n) = min (a + n) xs.length := by
    rw [sliceBound, if_neg (by omega)]
    omega
  rw [slice, sliceBound_of_nonneg h, hstop, List.drop_take, List.take_eq_take_iff, List.length_drop]
  omega

theorem slice_zero {α : Type} (xs : List α) (n : Nat) : slice xs 0 (n : Int) = xs.take n := by
  have hwindow := slice_window (Nat.zero_le xs.length) n
  simpa using hwindow

theorem sliceFrom_append {α : Type} (a b : List α) : sliceFrom (a ++ b) a.length = b := by
  rw [sliceFrom, sliceBound_of_nonneg (by simp), List.drop_left]

/-- `xs.slice(xs.length - k)` and `xs.slice(0, xs.length - k)` split off the last `k` elements. -/
theorem sliceFrom_sub_append {α : Type} {a b : List α} {k : Nat} (h : b.length = k) :
    sliceFrom (a ++ b) (((a ++ b).length : Int) - k) = b := by
  rw [sliceFrom, sliceBound_sub (by simp; omega)]
  simp [← h]

theorem slice_zero_sub_append {α : Type} {a b : List α} {k : Nat} (h : b.length = k) :
    slice (a ++ b) 0 (((a ++ b).length : Int) - k) = a := by
  rw [slice, sliceBound_sub (by simp; omega)]
  simp [← h, sliceBound]

@[simp] theorem slice_length {α : Type} (xs : List α) (start : Int) :
    slice xs start xs.length = sliceFrom xs start := by
  rw [slice, sliceBound_of_nonneg (Nat.le_refl _), List.take_length, sliceFrom]

theorem sliceFrom_length_le {α : Type} (xs : List α) (start : Int) :
    (sliceFrom xs start).length ≤ xs.length := by
  simp [sliceFrom]

/-! ## Little-endian integers -/

/-- Little-endian value of a byte string. -/
def leVal (b : Bytes) : Nat := Nat.ofDigits 256 (b.map UInt8.toNat)

/-- The low `w` bytes of `n`, least significant first. -/
def leBytes : Nat → Nat → Bytes
  | 0, _ => []
  | w + 1, n => UInt8.ofNat n :: leBytes w (n / 256)

@[simp] theorem leBytes_length (w n : Nat) : (leBytes w n).length = w := by
  induction w generalizing n with
  | zero => rfl
  | succ w ih => simp [leBytes, ih]

theorem leVal_leBytes (w n : Nat) : leVal (leBytes w n) = n % 256 ^ w := by
  induction w generalizing n with
  | zero => simp [leBytes, leVal, Nat.mod_one]
  | succ w ih =>
    have ih' := ih (n / 256)
    simp only [leVal] at ih'
    simp only [leBytes, leVal, List.map_cons, Nat.ofDigits_cons, ih', UInt8.toNat_ofNat']
    exact (Nat.mod_mul (a := 256) (b := 256 ^ w)).symm.trans (by rw [Nat.pow_succ'])

/-- Cutting a fixed-width field down to its first bytes gives the narrower field. -/
theorem take_leBytes {v w : Nat} (h : v ≤ w) (n : Nat) : (leBytes w n).take v = leBytes v n := by
  induction v generalizing w n with
  | zero => simp [leBytes]
  | succ v ih =>
    obtain ⟨w, rfl⟩ : ∃ w', w = w' + 1 := ⟨w - 1, by omega⟩
    simp [leBytes, ih (by omega : v ≤ w)]

/-- `buf.writeUInt32LE(n, 0)` on a fresh four-byte buffer. -/
def writeUInt32LE (n : Nat) : Except Thrown Bytes :=
  if n < 2 ^ 32 then .ok (leBytes 4 n) else .error .rangeError

theorem writeUInt32LE_ok {n : Nat} (h : n < 2 ^ 32) : writeUInt32LE n = .ok (leBytes 4 n) :=
  if_pos h

theorem writeUInt32LE_err {n : Nat} (h : ¬ n < 2 ^ 32) : writeUInt32LE n = .error .rangeError :=
  if_neg h

/-- `buf.readUIntLE(offset, byteLength)` -/
def readUIntLE (b : Bytes) (offset byteLength : Nat) : Except Thrown Nat :=
  if offset + byteLength ≤ b.length then .ok (leVal ((b.drop offset).take byteLength))
  else .error .rangeError

/-- `buf.readIntBE(offset, 1)`: one signed byte. -/
def readIntBE1 (b : Bytes) (offset : Nat) : Except Thrown Int :=
  match b[offset]? with
  | some x => .ok (x.toBitVec.toInt)
  | none => .error .rangeError

theorem readUIntLE_append (a b c : Bytes) :
    readUIntLE (a ++ b ++ c) a.length b.length = .ok (leVal b) := by
  rw [readUIntLE, if_pos (by simp)]
  simp [List.append_assoc]

theorem throws_readUIntLE {b : Bytes} {offset byteLength : Nat} :
    Throws (readUIntLE b offset byteLength) ↔ b.length < offset + byteLength := by
  unfold readUIntLE
  split
  · simp; omega
  · rename_i h; exact ⟨fun _ => by omega, fun _ => throws_error _⟩

@[simp] theorem readUIntLE_first (x : UInt8) (b : Bytes) : readUIntLE (x :: b) 0 1 = .ok x.toNat := by
  simp [readUIntLE, leVal]

def hexDigit (c : Char) : Option UInt8 :=
  if '0' ≤ c ∧ c ≤ '9' then some (UInt8.ofNat (c.toNat - '0'.toNat))
  else if 'a' ≤ c ∧ c ≤ 'f' then some (UInt8.ofNat (c.toNat - 'a'.toNat + 10))
  else if 'A' ≤ c ∧ c ≤ 'F' then some (UInt8.ofNat (c.toNat - 'A'.toNat + 10))
  else none

/-- `Buffer.from(s, 'hex')`: digit pairs up to the first invalid pair or a last odd digit. -/
def hexDecode : List Char → Bytes
  | hi :: lo :: rest =>
    match hexDigit hi, hexDigit lo with
    | some h, some l => (h * 16 + l) :: hexDecode rest
    | _, _ => []
  | _ => []

end Js
end JsWaku
