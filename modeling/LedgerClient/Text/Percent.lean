import LedgerClient.Bytes.Hex

/-!
# Percent escapes

A character that must not stand in a part of an address is escaped: each byte of its UTF-8 form is
written as a percent sign and two digits, in upper case. Which characters these are depends on the
part; those that do not print and those outside ASCII are always among them.
-/

namespace LedgerClient.Text

/-- A byte as an escape. -/
def escapedByte (b : UInt8) : List Char :=
  '%' :: (Hex.byteDigits b).map Char.toUpper

/-- Whether a character does not print or is not of ASCII. -/
def isUnprinted (c : Char) : Bool := c.toNat < 32 || 127 ≤ c.toNat

/-- Characters with those escaped that are unprinted or listed. -/
def percentEncode (listed : List Char) (cs : List Char) : List Char :=
  cs.flatMap fun c =>
    if isUnprinted c || listed.contains c then
      (Bytes.ofText (String.singleton c)).flatMap escapedByte
    else [c]

/-- The number below sixteen that a character is the digit of. -/
def hexDigit? (c : Char) : Option Nat :=
  if c.toNat < 128 then Hex.digitValue? (UInt8.ofNat c.toNat) else none

/-- Characters with the escapes of ASCII characters replaced by these. -/
def percentDecode : List Char → List Char
  | '%' :: a :: b :: cs =>
    match hexDigit? a, hexDigit? b with
    | some high, some low =>
      if high < 8 then Char.ofNat (16 * high + low) :: percentDecode cs
      else '%' :: percentDecode (a :: b :: cs)
    | _, _ => '%' :: percentDecode (a :: b :: cs)
  | c :: cs => c :: percentDecode cs
  | [] => []

example : percentEncode [' '] ['a', ' ', '\n'] = ['a', '%', '2', '0', '%', '0', 'A'] := by cbv

example : percentDecode ['%', '6', '1', '%', '2'] = ['a', '%', '2'] := by cbv

end LedgerClient.Text
