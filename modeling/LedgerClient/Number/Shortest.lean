import LedgerClient.Number.Binary64

/-!
# Shortest decimals

A floating-point number is shown by the decimal with the fewest digits that rounds to it, and among
several of those by the nearest. With `n` digits there are two candidates, the neighbours of the
number on the grid of decimals with that many digits; the first grid on which one of them rounds to
the number decides.
-/

namespace LedgerClient

open scoped Power

/-- A positive decimal: `digits · 10 ^ exponent`. -/
structure Shortest where
  digits : Nat
  exponent : Int
  deriving DecidableEq, Repr

namespace Shortest

/-- A quotient times a power of ten, as a quotient. -/
def timesPower (num den : Nat) (power : Int) : Nat × Nat :=
  if 0 ≤ power then (num * 10 ^ power.toNat, den) else (num, den * 10 ^ (-power).toNat)

/-- The first of `fuel` places from `place` on with the quotient below that power of ten. -/
def firstPlace (num den : Nat) (place : Int) : Nat → Int
  | 0 => place
  | fuel + 1 =>
    let (n, d) := timesPower num den (-place)
    if d ≤ n then firstPlace num den (place + 1) fuel else place

/-- The number of digits before the point of a positive number; negative if zeros follow it. -/
def placeOf (x : Binary64) : Int :=
  let (num, den) := x.magnitude
  firstPlace num den (((x.mantissa.log2 : Int) + x.exponent) * 1233 / 4096 - 1) 4

/-- The decimal on a grid that rounds to the number, if there is one; of two the nearer, and half
way the even one. -/
def onGrid? (x : Binary64) (exponent : Int) : Option Shortest :=
  let (num, den) := x.magnitude
  let (n, d) := timesPower num den (-exponent)
  let lower := n / d
  let remainder := n % d
  let readsBack (c : Nat) : Bool :=
    let (cn, cd) := timesPower c 1 exponent
    Binary64.nearest? cn cd == some (x.withSign false)
  let preferUpper := d < 2 * remainder || (2 * remainder == d && lower % 2 == 1)
  let first := if preferUpper then lower + 1 else lower
  let second := if preferUpper then lower else lower + 1
  if readsBack first then some ⟨first, exponent⟩
  else if readsBack second then some ⟨second, exponent⟩
  else none

/-- The decimal on the first grid that has one, among those of `fuel` more digits. -/
def search (x : Binary64) (exponent : Int) : Nat → Shortest
  | 0 => ⟨0, exponent⟩
  | fuel + 1 => (onGrid? x exponent).getD (search x (exponent - 1) fuel)

/-- A decimal without zeros at its end, up to `fuel` of them. -/
def strip (s : Shortest) : Nat → Shortest
  | 0 => s
  | fuel + 1 => if s.digits % 10 = 0 then strip ⟨s.digits / 10, s.exponent + 1⟩ fuel else s

/-- The shortest decimal of a number that is not zero; seventeen digits always suffice. -/
def ofBinary64 (x : Binary64) : Shortest :=
  (search x (placeOf x - 1) 17).strip 17

/-! ## Layout -/

/-- The digits with a point after the first `place` of them, which has to lie among them. -/
def withPoint (place : Nat) (ds : List Char) : List Char :=
  ds.take place ++ '.' :: ds.drop place

/-- The number in plain digits, with a point only if it is no whole number. -/
def plain (s : Shortest) : String :=
  let ds := (toString s.digits).toList
  let place := (ds.length : Int) + s.exponent
  String.ofList <|
    if 0 ≤ s.exponent then ds ++ List.replicate s.exponent.toNat '0'
    else if 0 < place then withPoint place.toNat ds
    else '0' :: '.' :: (List.replicate (-place).toNat '0' ++ ds)

/-- The number with a point always: in plain digits if that takes few zeros, else with an
exponent. -/
def scientific (s : Shortest) : String :=
  let ds := (toString s.digits).toList
  let place := (ds.length : Int) + s.exponent
  String.ofList <|
    if 0 ≤ s.exponent ∧ place ≤ 16 then
      ds ++ List.replicate s.exponent.toNat '0' ++ ['.', '0']
    else if 0 < place ∧ place ≤ 16 then withPoint place.toNat ds
    else if -5 < place ∧ place ≤ 0 then
      '0' :: '.' :: (List.replicate (-place).toNat '0' ++ ds)
    else
      (if ds.length = 1 then ds else withPoint 1 ds) ++ 'e' :: (toString (place - 1)).toList

end Shortest

namespace Binary64

/-- The sign of a number. -/
def signText (x : Binary64) : String := if x.negative then "-" else ""

/-- The shortest text in plain digits. -/
def plainText (x : Binary64) : String :=
  x.signText ++ if x.isZero then "0" else (Shortest.ofBinary64 x).plain

/-- The shortest text that shows that the number need not be whole. -/
def toText (x : Binary64) : String :=
  x.signText ++ if x.isZero then "0.0" else (Shortest.ofBinary64 x).scientific

end Binary64

end LedgerClient
