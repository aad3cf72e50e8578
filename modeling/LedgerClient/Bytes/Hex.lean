import LedgerClient.Bytes.Basic
import LedgerClient.Text.Escaped

/-!
# Hexadecimal text

`Hex.encode` writes each byte as two lower-case digits; `Hex.decode` takes digits of either case.
A text of odd length is refused first; then the first byte that is no digit is reported, by its
place among the bytes of the text's UTF-8 form and shown as the Latin-1 character of that byte.
-/

namespace LedgerClient.Hex

/-- Why a text is not hexadecimal. -/
inductive Error where
  /-- The text has an odd number of bytes. -/
  | oddLength
  /-- The byte at this place is no hexadecimal digit. -/
  | notDigit (byte : UInt8) (index : Nat)
  deriving DecidableEq, Repr

/-- The wording of an error. -/
def Error.message : Error → String
  | .oddLength => "Odd number of digits"
  | .notDigit byte index =>
    "Invalid character " ++ Text.quotedChar (Char.ofNat byte.toNat) ++ " at position " ++
      toString index

/-- The digit of a number below sixteen, in lower case. -/
def digit (n : Nat) : Char :=
  if n < 10 then Char.ofNat (48 + n) else Char.ofNat (87 + n)

/-- The number a digit of either case stands for. -/
def digitValue? (b : UInt8) : Option Nat :=
  let n := b.toNat
  if 48 ≤ n ∧ n ≤ 57 then some (n - 48)
  else if 97 ≤ n ∧ n ≤ 102 then some (n - 87)
  else if 65 ≤ n ∧ n ≤ 70 then some (n - 55)
  else none

/-- The two digits of a byte. -/
def byteDigits (b : UInt8) : List Char :=
  [digit (b.toNat / 16), digit (b.toNat % 16)]

/-- The hexadecimal text of bytes. -/
def encode (bs : Bytes) : String :=
  String.ofList (bs.flatMap byteDigits)

/-- Reads pairs of digits from place `index` on; the bytes read so far stand in `acc`, last
first. -/
def decodePairs (index : Nat) (acc : Bytes) : Bytes → Except Error Bytes
  | hi :: lo :: rest =>
    match digitValue? hi with
    | none => .error (.notDigit hi index)
    | some h =>
      match digitValue? lo with
      | none => .error (.notDigit lo (index + 1))
      | some l => decodePairs (index + 2) (UInt8.ofNat (16 * h + l) :: acc) rest
  | [_] => .error .oddLength
  | [] => .ok acc.reverse

/-- The bytes that a hexadecimal text spells. -/
def decode (s : String) : Except Error Bytes :=
  let digits := Bytes.ofText s
  if digits.length % 2 = 1 then .error .oddLength else decodePairs 0 [] digits

/-- A byte as it stands in an error text: two digits after `0x`. -/
def byteLiteral (b : UInt8) : String :=
  "0x" ++ String.ofList (byteDigits b)

end LedgerClient.Hex
