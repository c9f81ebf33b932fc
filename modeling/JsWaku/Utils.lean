import JsWaku.Js.Hex

/-!
# JsWaku.Utils

`lib/utils.ts`: keys and hashes reach the library either as bytes or as a hex string.
-/

namespace JsWaku

open Js

/-- `Uint8Array | string` -/
inductive BytesOrHex where
  | bytes (b : Bytes)
  | text (s : String)
  deriving DecidableEq, Repr

/-- Truthiness: every array is truthy, the empty string is not. -/
def BytesOrHex.truthy : BytesOrHex → Bool
  | .bytes _ => true
  | .text s => s ≠ ""

/-- `hex.replace(/^0x/i, '')` -/
def stripHexPrefix : List Char → List Char
  | '0' :: 'x' :: rest => rest
  | '0' :: 'X' :: rest => rest
  | cs => cs

def hexToBuf : BytesOrHex → Bytes
  | .text s => hexDecode (stripHexPrefix s.toList)
  | .bytes b => b

def bufToHex (buf : Bytes) : String := String.ofList (hexEncode buf)

/-- The text of a byte string has no prefix. -/
theorem stripHexPrefix_hexEncode (b : Bytes) : stripHexPrefix (hexEncode b) = hexEncode b := by
  cases b with
  | nil => rfl
  | cons x b =>
    have hdigit := hexDigit_digitChar (Nat.mod_lt x.toNat (show 0 < 16 by decide))
    rw [hexEncode]
    unfold stripHexPrefix
    split
    · rename_i heq
      rw [(List.cons.inj (List.cons.inj heq).2).1] at hdigit
      cases hdigit
    · rename_i heq
      rw [(List.cons.inj (List.cons.inj heq).2).1] at hdigit
      cases hdigit
    · rfl

theorem hexToBuf_bufToHex (b : Bytes) : hexToBuf (.text (bufToHex b)) = b := by
  rw [hexToBuf, bufToHex, String.toList_ofList, stripHexPrefix_hexEncode]
  exact (denotes_hexEncode b).hexDecode

/-- `aBuf.compare(bBuf) === 0`, where an array is copied and a string decoded. -/
def equalByteArrays (a b : BytesOrHex) : Bool :=
  let aBuf := match a with
    | .text _ => hexToBuf a
    | .bytes a => a
  let bBuf := match b with
    | .text _ => hexToBuf b
    | .bytes b => b
  decide (aBuf = bBuf)

end JsWaku
