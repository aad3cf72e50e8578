import LedgerClient.Number.Power

/-!
# Floating-point numbers of 64 bits

A finite number of the format is a sign, a mantissa below 2⁵³ and a power of two. All arithmetic is
exact first and rounded once: `Binary64.nearest?` gives the number of the format nearest to a
quotient of natural numbers, half way to the even mantissa, or nothing if the quotient is too large.
-/

namespace LedgerClient

open scoped Power

/-- A finite number: `± mantissa · 2 ^ exponent`. -/
structure Binary64 where
  negative : Bool
  mantissa : Nat
  exponent : Int
  deriving DecidableEq, Repr, Inhabited

namespace Binary64

/-- The least exponent. -/
def minExponent : Int := -1074

/-- The largest exponent. -/
def maxExponent : Int := 971

/-- Zero. -/
def zero : Binary64 := ⟨false, 0, minExponent⟩

/-- Whether the number is zero, of either sign. -/
def isZero (x : Binary64) : Bool := x.mantissa == 0

/-- The number with the given sign. -/
def withSign (x : Binary64) (negative : Bool) : Binary64 := { x with negative := negative }

/-- The quotient of `num` and `den · 2 ^ exponent` as a quotient of natural numbers. -/
def scaled (num den : Nat) (exponent : Int) : Nat × Nat :=
  if 0 ≤ exponent then (num, den * 2 ^ exponent.toNat) else (num * 2 ^ (-exponent).toNat, den)

/-- The exponent at which a positive quotient has a mantissa of 53 bits, unless it is too small. -/
def exponentOf (num den : Nat) : Int :=
  let guess := max ((num.log2 : Int) - den.log2 - 52) minExponent
  let (n, d) := scaled num den guess
  if n / d < 2 ^ (52 : Nat) then max (guess - 1) minExponent else guess

/-- A quotient rounded to a natural number, half way to an even one. -/
def roundQuotient (n d : Nat) : Nat :=
  let quotient := n / d
  let remainder := n % d
  if d < 2 * remainder then quotient + 1
  else if 2 * remainder = d then quotient + quotient % 2
  else quotient

/-- The number nearest to a quotient, if that is not too large. -/
def nearest? (num den : Nat) : Option Binary64 :=
  if num = 0 then some zero
  else
    let exponent := exponentOf num den
    let (n, d) := scaled num den exponent
    let mantissa := roundQuotient n d
    let (mantissa, exponent) :=
      if mantissa = 2 ^ (53 : Nat) then (2 ^ (52 : Nat), exponent + 1) else (mantissa, exponent)
    if maxExponent < exponent then none else some ⟨false, mantissa, exponent⟩

/-- The magnitude of a number as a quotient. -/
def magnitude (x : Binary64) : Nat × Nat := scaled x.mantissa 1 (-x.exponent)

/-- The product of two magnitudes, if it is not too large. -/
def mul? (x y : Binary64) : Option Binary64 :=
  let (n, d) := x.magnitude
  let (n', d') := y.magnitude
  nearest? (n * n') (d * d')

/-- The quotient of two magnitudes, if it is not too large. -/
def div? (x y : Binary64) : Option Binary64 :=
  let (n, d) := x.magnitude
  let (n', d') := y.magnitude
  nearest? (n * d') (d * n')

example : nearest? 1 10 = some ⟨false, 7205759403792794, -56⟩ := by decide

example : nearest? (2 ^ 53 + 1) 1 = some ⟨false, 2 ^ 52, 1⟩ := by decide

end Binary64

end LedgerClient
