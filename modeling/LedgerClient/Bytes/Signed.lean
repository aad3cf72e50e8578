import LedgerClient.Bytes.Basic

/-!
# Signed numbers of any size

A whole number of either sign stands in bytes as its two's complement, least significant byte
first, in as few bytes as keep the sign. Zero has no bytes at all. More bytes than needed are read
as the same number.
-/

namespace LedgerClient.Bytes

open scoped Power

/-- The number of bits of a natural number; zero has none. -/
def bitLength (n : Nat) : Nat := if n = 0 then 0 else n.log2 + 1

/-- The number of bytes in which a number keeps its sign; zero needs none. -/
def signedWidth (n : Int) : Nat :=
  if n = 0 then 0
  else if 0 ≤ n then bitLength n.toNat / 8 + 1
  else bitLength (-n - 1).toNat / 8 + 1

/-- The bytes of a number at a given width, where the number is cut in two as often as `depth` says
before its bytes are split off one by one. -/
def littleEndianHalves : (depth width n : Nat) → Bytes
  | 0, width, n => littleEndian width n
  | depth + 1, width, n =>
    let low := width / 2
    littleEndianHalves depth low (n % 256 ^ low) ++
      littleEndianHalves depth (width - low) (n / 256 ^ low)

/-- Cutting a number in two changes nothing of its bytes. -/
theorem littleEndianHalves_eq (depth width n : Nat) :
    littleEndianHalves depth width n = littleEndian width n := by
  induction depth generalizing width n with
  | zero => rfl
  | succ depth ih =>
    have hwidth : width / 2 + (width - width / 2) = width := by omega
    rw [littleEndianHalves, ih, ih, ← littleEndian_add, hwidth]

/-- The number of times a width is cut in two, so that no piece is wider than 128 bytes. -/
def halvings (width : Nat) : Nat := width.log2 - 6

/-- The two's complement of a number, in as few bytes as keep the sign. -/
def ofInt (n : Int) : Bytes :=
  let width := signedWidth n
  littleEndianHalves (halvings width) width (n % 256 ^ width).toNat

/-- The bytes of an integer are those of its remainder at the width that it needs: working by halves
only makes them faster to find. -/
theorem ofInt_eq (n : Int) :
    ofInt n = littleEndian (signedWidth n) (n % 256 ^ signedWidth n).toNat :=
  littleEndianHalves_eq _ _ _

/-- The number whose two's complement is given. -/
def toInt (bs : Bytes) : Int :=
  (toNat bs : Int).bmod (256 ^ bs.length)

example : ofInt 127 = [0x7f] ∧ ofInt 128 = [0x80, 0x00] ∧ ofInt (-128) = [0x80] ∧
    ofInt (-129) = [0x7f, 0xff] ∧ ofInt 0 = [] := by decide

example : toInt [0x80] = -128 ∧ toInt [0x7f, 0xff] = -129 ∧ toInt [0x05, 0x00, 0x00] = 5 ∧
    toInt [] = 0 := by decide

end LedgerClient.Bytes
