import LedgerClient.Json.Value

/-!
# Numbers in JSON texts

A numeral has a sign, digits before a point, and perhaps digits after it and an exponent. Whole
numbers that fit 64 bits are kept exactly. All others become floating-point numbers by a short rule
that rounds up to three times: the first digits, as many as fit 64 bits, are rounded to a
floating-point number, and that is multiplied or divided by a power of ten, itself rounded.
-/

namespace LedgerClient.Json

open scoped Power

/-- The parts of a number as it is written. -/
structure Numeral where
  negative : Bool
  /-- The digits before the point. -/
  whole : List Nat
  /-- The digits after the point, if there is one. -/
  fraction : Option (List Nat)
  /-- The sign and the digits of the exponent, if there is one. -/
  exponent : Option (Bool × List Nat)
  deriving DecidableEq, Repr

namespace Numeral

/-- The digits in front of a text, and what follows them. -/
def takeDigits (cs : List Char) : List Nat × List Char :=
  let (digits, rest) := cs.span Char.isDigit
  (digits.map fun c => c.toNat - 48, rest)

/-- The fraction in front of a text, if a point opens one; there is none without digits. -/
def takeFraction : List Char → Option (Option (List Nat) × List Char)
  | '.' :: cs =>
    match takeDigits cs with
    | ([], _) => none
    | (digits, rest) => some (some digits, rest)
  | cs => some (none, cs)

/-- The exponent in front of a text, if a letter opens one; there is none without digits. -/
def takeExponent : List Char → Option (Option (Bool × List Nat) × List Char)
  | [] => some (none, [])
  | c :: cs =>
    if c = 'e' ∨ c = 'E' then
      let (negative, cs) :=
        match cs with
        | '-' :: cs => (true, cs)
        | '+' :: cs => (false, cs)
        | cs => (false, cs)
      match takeDigits cs with
      | ([], _) => none
      | (digits, rest) => some (some (negative, digits), rest)
    else some (none, c :: cs)

/-- Whether digits may stand before the point: at least one, and no zero in front of others. -/
def isWhole : List Nat → Bool
  | [] => false
  | [_] => true
  | d :: _ => d != 0

/-- The numeral that a word is. -/
def ofChars? (word : List Char) : Option Numeral := do
  let (negative, cs) :=
    match word with
    | '-' :: cs => (true, cs)
    | cs => (false, cs)
  let (whole, cs) := takeDigits cs
  guard (isWhole whole)
  let (fraction, cs) ← takeFraction cs
  let (exponent, cs) ← takeExponent cs
  guard cs.isEmpty
  return ⟨negative, whole, fraction, exponent⟩

/-! ## Values -/

/-- The largest number of 64 bits. -/
def maxWord : Nat := UInt64.size - 1

/-- A number with digits added as long as it fits 64 bits, and the digits left over. -/
def absorb (significand : Nat) : List Nat → Nat × List Nat
  | [] => (significand, [])
  | d :: ds =>
    let next := 10 * significand + d
    if maxWord < next then (significand, d :: ds) else absorb next ds

/-- A power of ten as a floating-point number. -/
def powerOfTen? (k : Nat) : Option Binary64 := Binary64.nearest? (10 ^ k) 1

/-- The largest power of ten that the format has. -/
def maxPower : Nat := 308

/-- A magnitude divided by the largest power of ten that the format has, `steps` times, and then by
`10 ^ last`; zero is not divided further. -/
def shrink (x : Binary64) (last : Nat) : (steps : Nat) → Option Binary64
  | 0 => do x.div? (← powerOfTen? last)
  | steps + 1 =>
    if x.isZero then some x
    else do shrink (← x.div? (← powerOfTen? maxPower)) last steps

/-- A magnitude divided by a power of ten. -/
def divideByPower (x : Binary64) (k : Nat) : Option Binary64 :=
  let steps := (k - 1) / maxPower
  shrink x (k - maxPower * steps) steps

/-- A significand times a power of ten, if it is not too large. -/
def scale? (significand : Nat) (exponent : Int) : Option Binary64 :=
  match Binary64.nearest? significand 1 with
  | none => none
  | some x =>
    if exponent < 0 then divideByPower x (-exponent).toNat
    else if exponent ≤ maxPower then
      match powerOfTen? exponent.toNat with
      | some p => x.mul? p
      | none => none
    else if x.isZero then some x
    else none

/-- The whole number that digits spell. -/
def spelled (ds : List Nat) : Nat := ds.foldl (fun n d => 10 * n + d) 0

/-- The largest exponent that is computed with. -/
def maxExponent : Nat := 2 ^ (31 : Nat) - 1

/-- The significand and the power of ten of a numeral, its exponent aside. -/
def significand (n : Numeral) : Nat × Int :=
  let (s, dropped) := absorb 0 n.whole
  let fraction := n.fraction.getD []
  let (s, rest) := absorb s fraction
  (s, (dropped.length : Int) - (fraction.length - rest.length : Nat))

/-- The floating-point number of a numeral, if it is not too large. -/
def toBinary64? (n : Numeral) : Option Binary64 :=
  let (s, power) := n.significand
  let magnitude :=
    match n.exponent with
    | none => scale? s power
    | some (negative, digits) =>
      let e := spelled digits
      if maxExponent < e then
        if s = 0 ∨ negative then some Binary64.zero else none
      else scale? s (power + if negative then -(e : Int) else e)
  magnitude.map (·.withSign n.negative)

/-- The number that a numeral has as a whole number of 64 bits, if it is written as one. -/
def toInteger? (n : Numeral) : Option Int :=
  if n.fraction.isSome ∨ n.exponent.isSome then none
  else
    let value := spelled n.whole
    if n.negative then
      if 0 < value ∧ value ≤ 2 ^ (63 : Nat) then some (-(value : Int)) else none
    else if value ≤ maxWord then some value
    else none

/-- The value of a numeral; one that is too large has none. -/
def toJson (n : Numeral) : Json :=
  match n.toInteger? with
  | some value => .integer value
  | none =>
    match n.toBinary64? with
    | some x => .double x
    | none => .unreadable

end Numeral

end LedgerClient.Json
