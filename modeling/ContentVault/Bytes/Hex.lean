import ContentVault.Bytes.Basic
import ContentVault.Text.Quoted
set_option autoImplicit false

/-!
# Hexadecimal tokens

Writing uses two lowercase digits a byte.  Reading takes either letter case and
works on the UTF-8 bytes of the text, so that a position named in a fault counts
bytes.  An odd number of bytes is reported before any bad digit.
-/

namespace ContentVault.Hex

/-- Why a text is not a hexadecimal token. -/
inductive Fault where
  | oddLength
  | badDigit (byte : UInt8) (position : Nat)
  deriving DecidableEq, Repr, Inhabited

/-- The wording of a fault; the offending byte is shown as the character of that code. -/
def Fault.message : Fault → String
  | .oddLength => "Odd number of digits"
  | .badDigit byte position =>
    s!"Invalid character {Text.quoteChar (Char.ofNat byte.toNat)} at position {position}"

/-! ## Writing -/

/-- The lowercase digit of a number below sixteen. -/
def digit (n : Nat) : Char :=
  if n < 10 then Char.ofNat (48 + n) else Char.ofNat (87 + n)

/-- The two digits of a byte, high one first. -/
def byteDigits (b : UInt8) : List Char :=
  [digit (b.toNat / 16), digit (b.toNat % 16)]

/-- The hexadecimal token of a byte string. -/
def encode (bs : Bytes) : String := String.ofList (bs.flatMap byteDigits)

/-! ## Reading -/

/-- The value of a digit of either letter case. -/
def value? (b : UInt8) : Option Nat :=
  let n := b.toNat
  if 48 ≤ n ∧ n ≤ 57 then some (n - 48)
  else if 97 ≤ n ∧ n ≤ 102 then some (n - 87)
  else if 65 ≤ n ∧ n ≤ 70 then some (n - 55)
  else none

/-- Reads digit pairs, the first of which stands at `position`. -/
def decodePairs (position : Nat) : Bytes → Except Fault Bytes
  | [] => .ok []
  | [_] => .error .oddLength
  | high :: low :: rest =>
    match value? high with
    | none => .error (.badDigit high position)
    | some h =>
      match value? low with
      | none => .error (.badDigit low (position + 1))
      | some l =>
        match decodePairs (position + 2) rest with
        | .error fault => .error fault
        | .ok bytes => .ok (UInt8.ofNat (16 * h + l) :: bytes)

/-- Reads a hexadecimal token given as bytes. -/
def decodeBytes (bs : Bytes) : Except Fault Bytes :=
  if bs.length % 2 = 1 then .error .oddLength else decodePairs 0 bs

/-- Reads a hexadecimal token. -/
def decode (token : String) : Except Fault Bytes := decodeBytes (Bytes.ofText token)

end ContentVault.Hex
