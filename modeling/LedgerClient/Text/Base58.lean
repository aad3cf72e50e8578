import LedgerClient.Bytes.Basic
import LedgerClient.Bytes.Radix
import LedgerClient.Text.Escaped

/-!
# Base 58

Bytes as a number in base 58, most significant digit first, with one digit `1` in front for each
zero byte in front. The alphabet leaves out `0`, `O`, `I` and `l`, which are easily confused.
-/

namespace LedgerClient.Base58

/-- The digits in order of value. -/
def alphabet : List Char :=
  "123456789ABCDEFGHJKLMNPQRSTUVWXYZabcdefghijkmnopqrstuvwxyz".toList

/-- Why a text is not in base 58. -/
inductive Error where
  /-- The ASCII character at this byte is no digit. -/
  | notDigit (byte : UInt8) (index : Nat)
  /-- A character outside ASCII starts at this byte. -/
  | notAscii (index : Nat)
  deriving DecidableEq, Repr

/-- The wording of an error. -/
def Error.message : Error → String
  | .notDigit byte index =>
    "provided string contained invalid character " ++ Text.quotedChar (Char.ofNat byte.toNat) ++
      " at byte " ++ toString index
  | .notAscii index =>
    "provided string contained non-ascii character starting at byte " ++ toString index

/-- The digit of a value. -/
def digit (value : Nat) : Char := alphabet.getD value '1'

/-- The value of a digit. -/
def digitValue? (b : UInt8) : Option Nat :=
  alphabet.findIdx? (fun c => c.toNat == b.toNat)

/-- The base 58 text of bytes. -/
def encode (bs : Bytes) : String :=
  let zeros := (bs.takeWhile (· == 0)).length
  String.ofList (List.replicate zeros '1' ++
    (Radix.digits 58 (Bytes.toNat bs.reverse)).reverse.map digit)

/-- The values of digits from byte `index` on; those already read stand in `acc`, last first. -/
def digitValues (index : Nat) (acc : List Nat) : Bytes → Except Error (List Nat)
  | [] => .ok acc.reverse
  | b :: rest =>
    if 128 ≤ b.toNat then .error (.notAscii index)
    else
      match digitValue? b with
      | none => .error (.notDigit b index)
      | some v => digitValues (index + 1) (v :: acc) rest

/-- The bytes that a base 58 text spells. -/
def decode (s : String) : Except Error Bytes := do
  let values ← digitValues 0 [] (Bytes.ofText s)
  let zeros := (values.takeWhile (· == 0)).length
  let number := Radix.value 58 values.reverse
  return List.replicate zeros 0 ++ ((Radix.digits 256 number).map UInt8.ofNat).reverse

end LedgerClient.Base58
